/-
# A private key read from a JWK

`parseJWK` reads the key certbot registered an account with, from a file the controller did not
write. Its members are base64url numbers of any size. The scalar and the point of an EC key are
filled into buffers of the curve's size, and filling one with a number that does not fit panics.
-/

import SeverinoHQ.Math.Base64
import SeverinoHQ.Math.BigEndian
import SeverinoHQ.Math.Weierstrass
import Mathlib.Logic.Function.Basic

namespace SeverinoHQ.Providers.Jwk

open SeverinoHQ.Math
open SeverinoHQ.Math.Weierstrass (Point)

/-- `jsonWebKey`: the members of a private JWK certbot writes. -/
structure JsonWebKey where
  kty : String
  n : String
  e : String
  d : String
  p : String
  q : String
  crv : String
  x : String
  y : String
  deriving DecidableEq, Repr

/-! ## Curves -/

/-- `elliptic.Curve`, as far as a key is read by it. -/
structure Curve where
  bitSize : Nat
  p : Nat
  n : Nat
  gx : Nat
  gy : Nat
  gx_lt : gx < p
  gy_lt : gy < p
  p_fits : p ≤ 2 ^ bitSize
  n_fits : n ≤ 2 ^ bitSize
  deriving DecidableEq, Repr

/-- `elliptic.P256()`. -/
def p256 : Curve where
  bitSize := 256
  p := 0xffffffff00000001000000000000000000000000ffffffffffffffffffffffff
  n := 0xffffffff00000000ffffffffffffffffbce6faada7179e84f3b9cac2fc632551
  gx := 0x6b17d1f2e12c4247f8bce6e563a440f277037d812deb33a0f4a13945d898c296
  gy := 0x4fe342e2fe1a7f9b8ee7eb4a7c0f9e162bce33576b315ececbb6406837bf51f5
  gx_lt := by decide
  gy_lt := by decide
  p_fits := by decide
  n_fits := by decide

/-- `elliptic.P384()`. -/
def p384 : Curve where
  bitSize := 384
  p := 2 ^ 384 - 2 ^ 128 - 2 ^ 96 + 2 ^ 32 - 1
  n := 0xffffffffffffffffffffffffffffffffffffffffffffffffc7634d81f4372ddf581a0db248b0a77aecec196accc52973
  gx := 0xaa87ca22be8b05378eb1c71ef320ad746e1d3b628ba79b9859f741e082542a385502f25dbf55296c3a545e3872760ab7
  gy := 0x3617de4a96262c6f5d9e98bf9292dc29f8f41dbd289a147ce9da3113b5f0b8c00a60b1ce1d7e819d7a431d7c90ea0e5f
  gx_lt := by decide +kernel
  gy_lt := by decide +kernel
  p_fits := by decide +kernel
  n_fits := by decide +kernel

/-- `elliptic.P521()`. -/
def p521 : Curve where
  bitSize := 521
  p := 2 ^ 521 - 1
  n := 0x1fffffffffffffffffffffffffffffffffffffffffffffffffffffffffffffffffa51868783bf2f966b7fcc0148f709a5d03bb5c9b8899c47aebb6fb71e91386409
  gx := 0x00c6858e06b70404e9cd9e3ecb662395b4429c648139053fb521f828af606b4d3dbaa14b5e77efe75928fe1dc127a2ffa8de3348b3c1856a429bf97e7e31c2e5bd66
  gy := 0x011839296a789a3bc0045c8a5fb42c7d1bd998f54449579b446817afbd17273e662c97ee72995ef42640c550b9013fad0761353c7086a272c24088be94769fd16650
  gx_lt := by decide +kernel
  gy_lt := by decide +kernel
  p_fits := by decide +kernel
  n_fits := by decide +kernel

/-- The curves a key may name. -/
def curves : List (String × Curve) := [("P-256", p256), ("P-384", p384), ("P-521", p521)]

namespace Curve

variable (curve : Curve)

/-- The bytes of a coordinate or a scalar. -/
def size : Nat := (curve.bitSize + 7) / 8

/-- The point of a scalar. -/
def scalarBaseMult (scalar : Nat) : Point :=
  Weierstrass.multiple curve.p (some (curve.gx, curve.gy)) scalar curve.bitSize

end Curve

/-! ## Keys -/

/-- `rsa.PrivateKey`, its public half included. -/
structure RsaKey where
  n : Nat
  e : Nat
  d : Nat
  primes : List Nat
  deriving DecidableEq, Repr

/-- `ecdsa.PrivateKey`, its public half included. -/
structure EcKey where
  curve : Curve
  d : Nat
  point : Point
  deriving DecidableEq, Repr

/-- `crypto.Signer`. -/
inductive Signer where
  | rsa (key : RsaKey)
  | ec (key : EcKey)
  deriving DecidableEq, Repr

/-- The members of an RSA key, by their names. -/
inductive Member where
  | n
  | e
  | d
  | p
  | q
  deriving DecidableEq, Repr

def JsonWebKey.member (jwk : JsonWebKey) : Member → String
  | .n => jwk.n
  | .e => jwk.e
  | .d => jwk.d
  | .p => jwk.p
  | .q => jwk.q

/-- The order a map of the members is ranged over in, which is any. -/
structure Ranging where
  members : List Member
  all : members.Perm [.n, .e, .d, .p, .q]

/-- Why a key is refused. -/
inductive Problem where
  | json (text : String)
  | keyType (kty : String)
  /-- `"a key member is not base64url"`, of an RSA key's with its name before it. -/
  | member (name : Option Member)
  /-- `"exponent out of range"`. -/
  | exponent
  | invalid (text : String)
  | curve (crv : String)
  /-- `"private scalar out of range"`. -/
  | scalar
  /-- What `ecdsa.ParseRawPrivateKey` refuses. -/
  | rawKey
  /-- `"public point unreadable"`. -/
  | unreadable
  /-- What `PublicKey.Bytes` refuses. -/
  | publicKey
  /-- `"public point does not match the private scalar"`. -/
  | mismatch
  deriving DecidableEq, Repr

/-- How a call ends that answers nothing. -/
inductive Stop where
  | failed (problem : Problem)
  | panicked
  deriving DecidableEq, Repr

abbrev Answer := Except Stop

/-- What is read by other packages: a JSON text, and whether an RSA key validates. -/
structure Library where
  unmarshal : Bytes → Except String JsonWebKey
  validate : RsaKey → Option String

/-! ## Reading -/

/-- `jwkNumber`. -/
def jwkNumber (value : String) : Option Nat :=
  match Base64.decode (value.toList.rdropWhile (· == '=')) with
  | none => none
  | some data => if data = [] then none else some (BigEndian.ofBytes data)

/-- `FillBytes(make([]byte, size))`. -/
def fillBytes (size number : Nat) : Answer Bytes :=
  if number < 256 ^ size then .ok (BigEndian.fill size number) else .error .panicked

/-- The members' numbers, one after the other. -/
def numbersOf (jwk : JsonWebKey) : List Member → (Member → Nat) → Answer (Member → Nat)
  | [], numbers => .ok numbers
  | name :: names, numbers =>
      match jwkNumber (jwk.member name) with
      | none => .error (.failed (.member (some name)))
      | some number => numbersOf jwk names (Function.update numbers name number)

/-- `rsaJWK`. -/
def rsaJWK (library : Library) (order : Ranging) (jwk : JsonWebKey) : Answer Signer := do
  let numbers ← numbersOf jwk order.members fun _ => 0
  if numbers .e ≥ 2 ^ 63 ∨ numbers .e > 2 ^ 31 - 1 then .error (.failed .exponent)
  else
    let key : RsaKey := ⟨numbers .n, numbers .e, numbers .d, [numbers .p, numbers .q]⟩
    match library.validate key with
    | some text => .error (.failed (.invalid text))
    | none => .ok (.rsa key)

/-- `ecdsa.ParseRawPrivateKey`. -/
def parseRawPrivateKey (curve : Curve) (data : Bytes) : Answer EcKey :=
  let d := BigEndian.ofBytes data
  if data.length = curve.size ∧ 0 < d ∧ d < curve.n then
    .ok ⟨curve, d, curve.scalarBaseMult d⟩
  else .error (.failed .rawKey)

/-- `key.PublicKey.Bytes()`. -/
def publicBytes (key : EcKey) : Answer Bytes :=
  match key.point with
  | none => .error (.failed .publicKey)
  | some (x, y) => .ok ([4] ++ BigEndian.fill key.curve.size x ++ BigEndian.fill key.curve.size y)

/-- The published point, compared with the key's own. -/
def matchPoint (key : EcKey) (x y : Nat) : Answer Signer := do
  let own ← publicBytes key
  let xBytes ← fillBytes key.curve.size x
  let yBytes ← fillBytes key.curve.size y
  if own ≠ [4] ++ xBytes ++ yBytes then .error (.failed .mismatch) else .ok (.ec key)

/-- `ecJWK`. -/
def ecJWK (jwk : JsonWebKey) : Answer Signer :=
  match curves.lookup jwk.crv with
  | none => .error (.failed (.curve jwk.crv))
  | some curve =>
      match jwkNumber jwk.d with
      | none => .error (.failed (.member none))
      | some d =>
          if BigEndian.byteLength d > curve.size then .error (.failed .scalar)
          else do
            let data ← fillBytes curve.size d
            let key ← parseRawPrivateKey curve data
            match jwkNumber jwk.x, jwkNumber jwk.y with
            | some x, some y => matchPoint key x y
            | _, _ => .error (.failed .unreadable)

/-- `parseJWK`. -/
def parseJWK (library : Library) (order : Ranging) (data : Bytes) : Answer Signer :=
  match library.unmarshal data with
  | .error text => .error (.failed (.json text))
  | .ok jwk =>
      if jwk.kty = "RSA" then rsaJWK library order jwk
      else if jwk.kty = "EC" then ecJWK jwk
      else .error (.failed (.keyType jwk.kty))

/-! ## What is answered -/

/-- A key has the JWK's members, and they agree: an RSA key validates, and the point published of
an EC key is the one of its scalar. -/
def Agrees (library : Library) (jwk : JsonWebKey) : Signer → Prop
  | .rsa key => jwk.kty = "RSA" ∧ jwkNumber jwk.n = some key.n ∧ jwkNumber jwk.e = some key.e ∧
      jwkNumber jwk.d = some key.d ∧
      (∃ p q, jwkNumber jwk.p = some p ∧ jwkNumber jwk.q = some q ∧ key.primes = [p, q]) ∧
      library.validate key = none
  | .ec key => jwk.kty = "EC" ∧ curves.lookup jwk.crv = some key.curve ∧
      jwkNumber jwk.d = some key.d ∧
      ∃ x y, jwkNumber jwk.x = some x ∧ jwkNumber jwk.y = some y ∧ key.point = some (x, y) ∧
        key.curve.scalarBaseMult key.d = some (x, y)

/-- Reading the bytes ends without panicking, in an error or a key whose members agree. -/
def Settles (library : Library) (order : Ranging) (data : Bytes) : Prop :=
  parseJWK library order data ≠ .error .panicked ∧
    ∀ key, parseJWK library order data = .ok key →
      ∃ jwk, library.unmarshal data = .ok jwk ∧ Agrees library jwk key

/-- An EC key's coordinates take no more bytes than its curve's, where its curve is known, its
scalar is in range and has a point, and both can be read. -/
def Fits (library : Library) (data : Bytes) : Prop :=
  ∀ jwk curve d x y, library.unmarshal data = .ok jwk → jwk.kty = "EC" →
    curves.lookup jwk.crv = some curve → jwkNumber jwk.d = some d → 0 < d → d < curve.n →
      curve.scalarBaseMult d ≠ none → jwkNumber jwk.x = some x → jwkNumber jwk.y = some y →
        x < 256 ^ curve.size ∧ y < 256 ^ curve.size

/-! ## An EC key -/

namespace Curve

variable (curve : Curve)

theorem two_pow_le : 2 ^ curve.bitSize ≤ 256 ^ curve.size := by
  have hpow : (256 : Nat) ^ curve.size = 2 ^ (8 * curve.size) := by
    rw [Nat.pow_mul]
  rw [hpow]
  apply Nat.pow_le_pow_right (by decide)
  unfold size
  omega

theorem scalar_fits {d : Nat} (h : d < curve.n) : d < 256 ^ curve.size :=
  h.trans_le (curve.n_fits.trans curve.two_pow_le)

/-- The coordinates of a scalar's point fit. -/
theorem point_fits {d x y : Nat} (h : curve.scalarBaseMult d = some (x, y)) :
    x < 256 ^ curve.size ∧ y < 256 ^ curve.size := by
  have hbase : Weierstrass.Reduced curve.p (some (curve.gx, curve.gy)) := by
    rintro x y ⟨⟩
    exact ⟨curve.gx_lt, curve.gy_lt⟩
  have hpos : 0 < curve.p := Nat.zero_lt_of_lt curve.gx_lt
  obtain ⟨hx, hy⟩ := Weierstrass.reduced_multiple hpos hbase d curve.bitSize x y h
  have hp := curve.p_fits.trans curve.two_pow_le
  exact ⟨hx.trans_le hp, hy.trans_le hp⟩

end Curve

/-- Two points' bytes are the same where the points are. -/
theorem pointBytes_inj {size x y x' y' : Nat} (hx : x < 256 ^ size) (hy : y < 256 ^ size)
    (hx' : x' < 256 ^ size) (hy' : y' < 256 ^ size) :
    [4] ++ BigEndian.fill size x ++ BigEndian.fill size y =
        [4] ++ BigEndian.fill size x' ++ BigEndian.fill size y' ↔ x = x' ∧ y = y' := by
  constructor
  · intro h
    rw [List.append_assoc, List.append_assoc, List.append_cancel_left_eq] at h
    obtain ⟨hfirst, hsecond⟩ := List.append_inj h (by simp)
    exact ⟨(BigEndian.fill_inj hx hx').mp hfirst, (BigEndian.fill_inj hy hy').mp hsecond⟩
  · rintro ⟨rfl, rfl⟩
    rfl

section Matching

variable {curve : Curve} {d x y : Nat}

/-- A published point is matched where it fits, and panics where it does not. -/
theorem matchPoint_eq {x' y' : Nat} (hpoint : curve.scalarBaseMult d = some (x', y')) :
    matchPoint ⟨curve, d, curve.scalarBaseMult d⟩ x y =
      if x < 256 ^ curve.size ∧ y < 256 ^ curve.size then
        if x' = x ∧ y' = y then .ok (.ec ⟨curve, d, curve.scalarBaseMult d⟩)
        else .error (.failed .mismatch)
      else .error .panicked := by
  obtain ⟨hx', hy'⟩ := curve.point_fits hpoint
  have hown : publicBytes ⟨curve, d, curve.scalarBaseMult d⟩ =
      .ok ([4] ++ BigEndian.fill curve.size x' ++ BigEndian.fill curve.size y') := by
    simp [publicBytes, hpoint]
  rw [matchPoint, hown]
  by_cases hx : x < 256 ^ curve.size
  · by_cases hy : y < 256 ^ curve.size
    · simp only [fillBytes, hx, hy, if_true, and_self]
      show (if _ ≠ _ then _ else _) = _
      by_cases hsame : x' = x ∧ y' = y
      · rw [if_neg (not_not.mpr ((pointBytes_inj hx' hy' hx hy).mpr hsame)), if_pos hsame]
      · rw [if_pos (mt (pointBytes_inj hx' hy' hx hy).mp hsame), if_neg hsame]
    · simp [fillBytes, hx, hy]
      rfl
  · simp [fillBytes, hx]
    rfl

end Matching

section Reading

variable {jwk : JsonWebKey} {curve : Curve} {d : Nat}

/-- A scalar that fits is a key where it is in range. -/
theorem readKey_eq (hfits : d < 256 ^ curve.size) :
    (fillBytes curve.size d >>= parseRawPrivateKey curve) =
      if 0 < d ∧ d < curve.n then .ok ⟨curve, d, curve.scalarBaseMult d⟩
      else .error (.failed .rawKey) := by
  rw [fillBytes, if_pos hfits]
  show parseRawPrivateKey curve (BigEndian.fill curve.size d) = _
  rw [parseRawPrivateKey, BigEndian.ofBytes_fill hfits, BigEndian.length_fill]
  simp

/-- The curve's size is checked before the scalar is filled into a buffer of it. -/
theorem ecJWK_eq (hcurve : curves.lookup jwk.crv = some curve) (hd : jwkNumber jwk.d = some d) :
    ecJWK jwk = if d < 256 ^ curve.size then
      (if 0 < d ∧ d < curve.n then .ok ⟨curve, d, curve.scalarBaseMult d⟩
        else .error (.failed .rawKey)) >>= fun key =>
        match jwkNumber jwk.x, jwkNumber jwk.y with
        | some x, some y => matchPoint key x y
        | _, _ => .error (.failed .unreadable)
      else .error (.failed .scalar) := by
  unfold ecJWK
  rw [hcurve, hd]
  dsimp only
  by_cases hfits : d < 256 ^ curve.size
  · rw [if_neg (not_lt.mpr (BigEndian.byteLength_le_iff.mpr hfits)), if_pos hfits, ← bind_assoc,
      readKey_eq hfits]
  · rw [if_pos (not_le.mp (mt BigEndian.byteLength_le_iff.mp hfits)), if_neg hfits]

/-- An EC key whose members can be read is told by its published point. -/
theorem ecJWK_of_read {x y : Nat} (hcurve : curves.lookup jwk.crv = some curve)
    (hd : jwkNumber jwk.d = some d) (hpos : 0 < d) (hlt : d < curve.n)
    (hx : jwkNumber jwk.x = some x) (hy : jwkNumber jwk.y = some y) :
    ecJWK jwk = matchPoint ⟨curve, d, curve.scalarBaseMult d⟩ x y := by
  rw [ecJWK_eq hcurve hd, if_pos (curve.scalar_fits hlt), if_pos ⟨hpos, hlt⟩, hx, hy]
  rfl

end Reading

/-- Any other EC key is refused. -/
theorem ecJWK_cases (jwk : JsonWebKey) :
    (∃ problem, ecJWK jwk = .error (.failed problem)) ∨
      ∃ curve d x y, curves.lookup jwk.crv = some curve ∧ jwkNumber jwk.d = some d ∧ 0 < d ∧
        d < curve.n ∧ jwkNumber jwk.x = some x ∧ jwkNumber jwk.y = some y := by
  cases hcurve : curves.lookup jwk.crv with
  | none => exact Or.inl ⟨.curve jwk.crv, by unfold ecJWK; rw [hcurve]⟩
  | some curve =>
      cases hd : jwkNumber jwk.d with
      | none => exact Or.inl ⟨.member none, by unfold ecJWK; rw [hcurve, hd]⟩
      | some d =>
          by_cases hfits : d < 256 ^ curve.size
          · by_cases hrange : 0 < d ∧ d < curve.n
            · cases hx : jwkNumber jwk.x with
              | none =>
                  refine Or.inl ⟨.unreadable, ?_⟩
                  rw [ecJWK_eq hcurve hd, if_pos hfits, if_pos hrange, hx]
                  rfl
              | some x =>
                  cases hy : jwkNumber jwk.y with
                  | none =>
                      refine Or.inl ⟨.unreadable, ?_⟩
                      rw [ecJWK_eq hcurve hd, if_pos hfits, if_pos hrange, hx, hy]
                      rfl
                  | some y =>
                      exact Or.inr ⟨curve, d, x, y, rfl, rfl, hrange.1, hrange.2, rfl, rfl⟩
            · refine Or.inl ⟨.rawKey, ?_⟩
              rw [ecJWK_eq hcurve hd, if_pos hfits, if_neg hrange]
              rfl
          · refine Or.inl ⟨.scalar, ?_⟩
            rw [ecJWK_eq hcurve hd, if_neg hfits]

/-! ## An RSA key -/

/-- The members' numbers are those of the JWK, whatever order they are read in. -/
theorem numbersOf_cases (jwk : JsonWebKey) (names : List Member) (numbers : Member → Nat) :
    (∃ problem, numbersOf jwk names numbers = .error (.failed problem)) ∨
      ∃ found, numbersOf jwk names numbers = .ok found ∧
        ∀ name, jwkNumber (jwk.member name) = some (found name) ∨
          name ∉ names ∧ found name = numbers name := by
  induction names generalizing numbers with
  | nil => exact Or.inr ⟨numbers, rfl, fun name => Or.inr ⟨by simp, rfl⟩⟩
  | cons name names ih =>
      rw [numbersOf]
      cases hnumber : jwkNumber (jwk.member name) with
      | none => exact Or.inl ⟨_, rfl⟩
      | some number =>
          refine (ih (Function.update numbers name number)).imp_right ?_
          rintro ⟨found, hfound, hread⟩
          refine ⟨found, hfound, fun other => ?_⟩
          rcases hread other with h | ⟨hnot, h⟩
          · exact Or.inl h
          · by_cases hsame : other = name
            · subst hsame
              rw [Function.update_self] at h
              exact Or.inl (h ▸ hnumber)
            · rw [Function.update_of_ne hsame] at h
              exact Or.inr ⟨by simp [hsame, hnot], h⟩

theorem rsaJWK_cases (library : Library) (order : Ranging) (jwk : JsonWebKey) :
    (∃ problem, rsaJWK library order jwk = .error (.failed problem)) ∨
      ∃ key, rsaJWK library order jwk = .ok (.rsa key) ∧ library.validate key = none ∧
        jwkNumber jwk.n = some key.n ∧ jwkNumber jwk.e = some key.e ∧
          jwkNumber jwk.d = some key.d ∧
            ∃ p q, jwkNumber jwk.p = some p ∧ jwkNumber jwk.q = some q ∧ key.primes = [p, q] := by
  unfold rsaJWK
  obtain ⟨problem, h⟩ | ⟨found, h, hread⟩ := numbersOf_cases jwk order.members fun _ => 0
  · exact Or.inl ⟨problem, by rw [h]; rfl⟩
  · have hall : ∀ name, jwkNumber (jwk.member name) = some (found name) := by
      intro name
      refine (hread name).resolve_right fun hnot => hnot.1 ?_
      rw [order.all.mem_iff]
      cases name <;> decide
    simp only [h, bind, Except.bind]
    by_cases hexponent : found .e ≥ 2 ^ 63 ∨ found .e > 2 ^ 31 - 1
    · rw [if_pos hexponent]
      exact Or.inl ⟨_, rfl⟩
    · rw [if_neg hexponent]
      cases hvalid : library.validate ⟨found .n, found .e, found .d, [found .p, found .q]⟩ with
      | some text => exact Or.inl ⟨_, rfl⟩
      | none =>
          exact Or.inr ⟨_, rfl, hvalid, hall .n, hall .e, hall .d, _, _, hall .p, hall .q, rfl⟩

/-! ## Any bytes -/

variable {library : Library} {order : Ranging} {data : Bytes}

/-- What an EC key answers whose point fits, or is refused. -/
theorem ecJWK_settles {jwk : JsonWebKey} (hread : library.unmarshal data = .ok jwk)
    (hkty : jwk.kty = "EC") (hfits : Fits library data) :
    ecJWK jwk ≠ .error .panicked ∧ ∀ key, ecJWK jwk = .ok key → Agrees library jwk key := by
  rcases ecJWK_cases jwk with ⟨problem, h⟩ | ⟨curve, d, x, y, hcurve, hd, hpos, hlt, hx, hy⟩
  · rw [h]
    exact ⟨by simp, by simp⟩
  · rw [ecJWK_of_read hcurve hd hpos hlt hx hy]
    cases hpoint : curve.scalarBaseMult d with
    | none =>
        have hinfinity : matchPoint ⟨curve, d, none⟩ x y = .error (.failed .publicKey) := rfl
        rw [hinfinity]
        exact ⟨by simp, by simp⟩
    | some point =>
        obtain ⟨x', y'⟩ := point
        have hne : curve.scalarBaseMult d ≠ none := by simp [hpoint]
        have hboth := hfits jwk curve d x y hread hkty hcurve hd hpos hlt hne hx hy
        rw [← hpoint, matchPoint_eq hpoint, if_pos hboth]
        by_cases hsame : x' = x ∧ y' = y
        · obtain ⟨rfl, rfl⟩ := hsame
          rw [if_pos ⟨rfl, rfl⟩]
          refine ⟨by simp, ?_⟩
          rintro _ ⟨⟩
          exact ⟨hkty, hcurve, hd, x', y', hx, hy, hpoint, hpoint⟩
        · rw [if_neg hsame]
          exact ⟨by simp, by simp⟩

/-- Reading the bytes of a key settles exactly where an EC key's published point fits its curve. -/
theorem settles_iff (library : Library) (order : Ranging) (data : Bytes) :
    Settles library order data ↔ Fits library data := by
  unfold Settles
  constructor
  · rintro ⟨hpanic, -⟩ jwk curve d x y hread hkty hcurve hd hpos hlt hne hx hy
    obtain ⟨⟨x', y'⟩, hpoint⟩ := Option.ne_none_iff_exists'.mp hne
    by_contra hunfit
    apply hpanic
    have hother : ¬jwk.kty = "RSA" := by simp [hkty]
    simp only [parseJWK, hread]
    rw [if_neg hother, if_pos hkty, ecJWK_of_read hcurve hd hpos hlt hx hy, matchPoint_eq hpoint,
      if_neg hunfit]
  · intro hfits
    unfold parseJWK
    cases hread : library.unmarshal data with
    | error text => exact ⟨by simp, by simp⟩
    | ok jwk =>
        dsimp only
        by_cases hrsa : jwk.kty = "RSA"
        · rw [if_pos hrsa]
          rcases rsaJWK_cases library order jwk with ⟨problem, h⟩ | ⟨key, h, hvalid, hmembers⟩
          · rw [h]
            exact ⟨by simp, by simp⟩
          · rw [h]
            refine ⟨by simp, ?_⟩
            rintro _ ⟨⟩
            obtain ⟨hn, he, hd, hprimes⟩ := hmembers
            exact ⟨jwk, rfl, hrsa, hn, he, hd, hprimes, hvalid⟩
        · rw [if_neg hrsa]
          by_cases hec : jwk.kty = "EC"
          · rw [if_pos hec]
            obtain ⟨hpanic, hagrees⟩ := ecJWK_settles hread hec hfits
            exact ⟨hpanic, fun key hkey => ⟨jwk, rfl, hagrees key hkey⟩⟩
          · rw [if_neg hec]
            exact ⟨by simp, by simp⟩

/-- A number written as bytes is read back. -/
theorem jwkNumber_encode {value : String} {data : Bytes} (hsome : data ≠ [])
    (h : value.toList = Base64.encode data) : jwkNumber value = some (BigEndian.ofBytes data) := by
  have hpadding : '=' ∉ Base64.alphabet := by
    rw [Base64.alphabet_eq]
    decide
  have hkept : value.toList.rdropWhile (· == '=') = Base64.encode data := by
    rw [h, List.rdropWhile_eq_self_iff]
    intro hletters hlast
    have hmem := Base64.mem_encode (List.getLast_mem hletters)
    rw [beq_iff_eq.mp hlast] at hmem
    exact hpadding hmem
  rw [jwkNumber, hkept, Base64.decode_encode]
  exact if_neg hsome

/-- A key whose scalar is one and whose x is a byte longer than the curve's. -/
def overlong : JsonWebKey where
  kty := "EC"
  n := ""
  e := ""
  d := "AQ"
  p := ""
  q := ""
  crv := "P-256"
  x := "AQAAAAAAAAAAAAAAAAAAAAAAAAAAAAAAAAAAAAAAAAAA"
  y := "AA"

def overlongText : Bytes :=
  Bytes.ascii ("\x7b\"kty\":\"EC\",\"crv\":\"P-256\",\"d\":\"AQ\"," ++
    "\"x\":\"AQAAAAAAAAAAAAAAAAAAAAAAAAAAAAAAAAAAAAAAAAAA\",\"y\":\"AA\"\x7d")

/-- The answers other packages give about `overlongText`. -/
def sampleLibrary : Library where
  unmarshal data := if data = overlongText then .ok overlong else .error "unexpected end of JSON input"
  validate _ := some "crypto/rsa: invalid modulus"

def sampleRanging : Ranging where
  members := [.n, .e, .d, .p, .q]
  all := List.Perm.refl _

theorem parseJWK_overlong {library : Library} {order : Ranging}
    (hread : library.unmarshal overlongText = .ok overlong) :
    parseJWK library order overlongText = .error .panicked := by
  have hcurve : curves.lookup overlong.crv = some p256 := rfl
  have hpoint : p256.scalarBaseMult 1 = some (p256.gx, p256.gy) :=
    Weierstrass.multiple_one p256.p (some (p256.gx, p256.gy)) 255
  have hx : jwkNumber overlong.x = some (256 ^ 32) := by
    refine jwkNumber_encode (List.cons_ne_nil 1 (List.replicate 32 0)) ?_
    simp only [Base64.encode, List.replicate, Base64.letter, Base64.alphabet_eq]
    exact String.toList_ofList
  have hy : jwkNumber overlong.y = some 0 := by
    refine jwkNumber_encode (List.cons_ne_nil 0 []) ?_
    simp only [Base64.encode, Base64.letter, Base64.alphabet_eq]
    exact String.toList_ofList
  have hd : jwkNumber overlong.d = some 1 := by
    refine jwkNumber_encode (List.cons_ne_nil 1 []) ?_
    simp only [Base64.encode, Base64.letter, Base64.alphabet_eq]
    exact String.toList_ofList
  have hpanics : ecJWK overlong = .error .panicked := by
    rw [ecJWK_of_read hcurve hd (by decide) (by decide) hx hy, matchPoint_eq hpoint,
      if_neg (by decide)]
  simp only [parseJWK, hread]
  rw [if_neg (by decide), if_pos (by decide), hpanics]

/-- A coordinate of 33 bytes is filled into 32. -/
theorem overlong_panics :
    ¬∀ library order data, Settles library order data := by
  intro h
  have hread : sampleLibrary.unmarshal overlongText = .ok overlong := by
    simp [sampleLibrary]
  exact (h sampleLibrary sampleRanging overlongText).1 (parseJWK_overlong hread)

end SeverinoHQ.Providers.Jwk
