/-
# Sealing a secret to the controller

HQ seals a value to a public key the controller holds the private half of, under an info
that names the resource's key and the slot. The controller opens it by the resource's
key as it then stands. HPKE itself and SHA-256 are a parameter: what is sealed opens
under its own info and under no other.
-/

import Mathlib.Algebra.GroupWithZero.Nat
import SeverinoHQ.Math.Base64
import SeverinoHQ.Math.Separated
import SeverinoHQ.Math.Text

namespace SeverinoHQ.Secrets

open SeverinoHQ.Math

/-- What both halves use of HPKE, of its key encapsulation and of SHA-256. -/
structure Hpke (Key : Type) where
  /-- The public half of a key, as its bytes. -/
  publicKey : Key → Bytes
  /-- Whether both parts of a public key load. -/
  loads : Bytes → Bool
  /-- A text sealed to a public key under an info, by what the sealing drew. -/
  encrypt : Bytes → String → String → Nat → Bytes
  /-- What a ciphertext opens to under an info, where it opens. -/
  decrypt : Key → String → Bytes → Option String
  sha256 : Bytes → Bytes

/-- HPKE is correct and binds its info, and a digest has its length. -/
structure Hpke.Sound {Key : Type} (hpke : Hpke Key) : Prop where
  opens : ∀ key info plaintext drawn,
    hpke.decrypt key info (hpke.encrypt (hpke.publicKey key) info plaintext drawn) = some plaintext
  binds : ∀ key info other plaintext drawn, other ≠ info →
    hpke.decrypt key other (hpke.encrypt (hpke.publicKey key) info plaintext drawn) = none
  digest : ∀ bytes, (hpke.sha256 bytes).length = 32

/-! ## What both halves agree on -/

def sealedPrefix : String := "hq2"

/-- ML-KEM-768's encapsulation key, then X25519's. -/
def publicKeyBytes : Nat := 1184 + 32

def hexDigits : List Char := "0123456789abcdef".toList

/-- Bytes in hexadecimal. -/
def hexadecimal (bytes : Bytes) : List Char :=
  bytes.flatMap fun byte =>
    [hexDigits.getD (byte.toNat / 16) '0', hexDigits.getD (byte.toNat % 16) '0']

/-- The info of a place; none where a part is empty or holds the separator. -/
def info (resourceKey slot : String) : Option String :=
  if [resourceKey, slot].any fun part => part = "" || part.toList.contains '|' then none
  else some ("hq-seal/v1|" ++ resourceKey ++ "|" ++ slot)

theorem info_eq_some {resourceKey slot place : String} (h : info resourceKey slot = some place) :
    '|' ∉ resourceKey.toList ∧ '|' ∉ slot.toList ∧
      place.toList = "hq-seal/v1|".toList ++ (resourceKey.toList ++ '|' :: slot.toList) := by
  unfold info at h
  split at h
  · simp at h
  next hparts =>
    cases h
    simp only [List.any_cons, List.any_nil, Bool.or_false, Bool.or_eq_true, not_or,
      List.contains_iff_mem] at hparts
    refine ⟨hparts.1.2, hparts.2.2, ?_⟩
    simp [String.toList_append, List.append_assoc]

/-- No two places share an info. -/
theorem info_injective {key other slot place shared : String} (h : info key slot = some shared)
    (hother : info other place = some shared) : key = other ∧ slot = place := by
  obtain ⟨-, hslot, hshared⟩ := info_eq_some h
  obtain ⟨-, hplace, hsame⟩ := info_eq_some hother
  have hparts := List.append_cancel_left (hshared.symm.trans hsame)
  obtain ⟨hkey, hlast⟩ := Separated.append_inj hslot hplace hparts
  exact ⟨String.toList_inj.mp hkey, String.toList_inj.mp hlast⟩

section Sealing

variable {Key : Type} (hpke : Hpke Key)

/-! ## HQ's half -/

/-- Why HQ seals nothing: it has no key to seal to, or the place has no info. -/
inductive Unsealed
  | unavailable
  | unbound
  deriving DecidableEq, Repr

/-- `_controller_key`: the public key in the settings, as base64 decodes it, and the id
a sealed value names it by. -/
def controllerKey (setting : Option Bytes) : Except Unsealed (List Char × Bytes) :=
  match setting with
  | none => .error .unavailable
  | some publicKey =>
      if publicKey.length ≠ publicKeyBytes then .error .unavailable
      else if !hpke.loads publicKey then .error .unavailable
      else .ok ((hexadecimal (hpke.sha256 publicKey)).take 8, publicKey)

/-- `seal_for_controller`. -/
def sealForController (setting : Option Bytes) (plaintext resourceKey slot : String) (drawn : Nat) :
    Except Unsealed String :=
  match controllerKey hpke setting with
  | .error problem => .error problem
  | .ok (keyId, publicKey) =>
      match info resourceKey slot with
      | none => .error .unbound
      | some place =>
          .ok (String.ofList (sealedPrefix.toList ++ '.' :: (keyId ++ '.' ::
            Base64.encode (hpke.encrypt publicKey place plaintext drawn))))

/-! ## The controller's half -/

/-- `KeyID`: the first four bytes of the digest. -/
def keyID (publicKey : Bytes) : List Char := hexadecimal ((hpke.sha256 publicKey).take 4)

/-- Why a sealed value does not open. -/
inductive Unopened
  | malformed (problem : String)
  | unlent (id : String)
  | unbound
  | unopened
  deriving DecidableEq, Repr

/-- `Header`: the id of the key a value was sealed to, and its ciphertext. -/
def header (text : String) : Except Unopened (List Char × Bytes) :=
  match Text.cut '.' text.toList with
  | none => .error (.malformed "a sealed value starts \"hq2.\"")
  | some (start, rest) =>
      if start ≠ sealedPrefix.toList then .error (.malformed "a sealed value starts \"hq2.\"")
      else
        match Text.cut '.' rest with
        | none => .error (.malformed "a sealed value names its key in 8 hex digits")
        | some (id, body) =>
            if (id.map Char.utf8Size).sum ≠ 8 then
              .error (.malformed "a sealed value names its key in 8 hex digits")
            else
              match Base64.decode body with
              | none =>
                  .error (.malformed "a sealed value's ciphertext is unpadded URL-safe base64")
              | some ciphertext => .ok (id, ciphertext)

/-- `Key.Open`. -/
def openCiphertext (key : Key) (ciphertext : Bytes) (resourceKey slot : String) :
    Except Unopened String :=
  match info resourceKey slot with
  | none => .error .unbound
  | some place =>
      match hpke.decrypt key place ciphertext with
      | none => .error .unopened
      | some plaintext => .ok plaintext

/-- The key lent to a run under an id. -/
def lentKey (lent : List Key) (id : List Char) : Option Key :=
  lent.find? fun key => keyID hpke (hpke.publicKey key) == id

/-- `Opener.Open`, with the keys lent to the run. -/
def openSealed (lent : List Key) (text resourceKey slot : String) : Except Unopened String :=
  match header text with
  | .error problem => .error problem
  | .ok (id, ciphertext) =>
      match lentKey hpke lent id with
      | none => .error (.unlent (String.ofList id))
      | some key => openCiphertext hpke key ciphertext resourceKey slot

/-! ## The two halves together -/

/-- A public key's private half is lent under its id. -/
def Lends (lent : List Key) (publicKey : Bytes) : Prop :=
  ∃ key, lentKey hpke lent (keyID hpke publicKey) = some key ∧ hpke.publicKey key = publicKey

variable {hpke}

theorem hexadecimal_take (bytes : Bytes) (count : Nat) :
    (hexadecimal bytes).take (2 * count) = hexadecimal (bytes.take count) := by
  induction count generalizing bytes with
  | zero => simp [hexadecimal]
  | succ count ih =>
      cases bytes with
      | nil => simp [hexadecimal]
      | cons byte bytes =>
          have hrest := ih bytes
          simp only [hexadecimal] at hrest
          simp only [hexadecimal, List.flatMap_cons, List.take_succ_cons, List.cons_append,
            List.nil_append, Nat.mul_add, Nat.mul_one, hrest]

theorem hexadecimal_digits {bytes : Bytes} {char : Char} (h : char ∈ hexadecimal bytes) :
    char ∈ hexDigits := by
  have hdigit : ∀ number, hexDigits.getD number '0' ∈ hexDigits := by
    intro number
    by_cases hnumber : number < hexDigits.length
    · rw [List.getD_eq_getElem _ _ hnumber]
      exact List.getElem_mem hnumber
    · rw [List.getD_eq_default _ _ (Nat.le_of_not_lt hnumber)]
      decide
  obtain ⟨byte, -, hchar⟩ := List.mem_flatMap.mp h
  simp only [List.mem_cons, List.not_mem_nil, or_false] at hchar
  rcases hchar with rfl | rfl
  · exact hdigit _
  · exact hdigit _

/-- Both halves name a key alike. -/
theorem controllerKey_eq_ok {setting : Option Bytes} {keyId : List Char} {publicKey : Bytes}
    (h : controllerKey hpke setting = .ok (keyId, publicKey)) :
    setting = some publicKey ∧ keyId = keyID hpke publicKey := by
  unfold controllerKey at h
  cases setting with
  | none => simp at h
  | some stored =>
      dsimp only at h
      split at h
      · simp at h
      · split at h
        · simp at h
        · obtain ⟨rfl, rfl⟩ := Prod.mk.inj (Except.ok.inj h)
          exact ⟨rfl, hexadecimal_take _ 4⟩

theorem setting_of_sealed {setting : Option Bytes} {plaintext resourceKey slot text : String}
    {drawn : Nat} (h : sealForController hpke setting plaintext resourceKey slot drawn = .ok text) :
    ∃ publicKey, setting = some publicKey := by
  unfold sealForController at h
  cases hkey : controllerKey hpke setting with
  | error problem => simp [hkey] at h
  | ok stored => exact ⟨_, (controllerKey_eq_ok hkey).1⟩

/-- An id is eight hexadecimal digits. -/
theorem keyID_sizes (hsound : hpke.Sound) (publicKey : Bytes) :
    ((keyID hpke publicKey).map Char.utf8Size).sum = 8 := by
  have hone : ∀ char ∈ hexDigits, (char.utf8Size == 1) = true :=
    List.all_eq_true.mp (by decide)
  have hsizes : (keyID hpke publicKey).map Char.utf8Size =
      (keyID hpke publicKey).map fun _ => 1 :=
    List.map_congr_left fun char hchar =>
      beq_iff_eq.mp (hone char (hexadecimal_digits hchar))
  rw [hsizes, keyID, hexadecimal]
  simp [List.length_flatMap, hsound.digest]

/-- What HQ seals has the header the controller reads. -/
theorem header_sealed (hsound : hpke.Sound) (publicKey ciphertext : Bytes) :
    header (String.ofList (sealedPrefix.toList ++ '.' :: (keyID hpke publicKey ++ '.' ::
      Base64.encode ciphertext))) = .ok (keyID hpke publicKey, ciphertext) := by
  have hinitial : '.' ∉ sealedPrefix.toList := by decide
  have hid : '.' ∉ keyID hpke publicKey := by
    intro h
    exact absurd (hexadecimal_digits h) (by decide)
  unfold header
  rw [String.toList_ofList, Text.cut_append hinitial]
  simp only [ne_eq, not_true_eq_false, if_false]
  rw [Text.cut_append hid]
  simp only [keyID_sizes hsound, not_true_eq_false, if_false]
  rw [Base64.decode_encode]

/-- A value HQ sealed opens for its own key and slot, to what was sealed, and for nothing
else. -/
theorem openSealed_sealed (hsound : hpke.Sound) {lent : List Key} {publicKey : Bytes}
    (hlent : Lends hpke lent publicKey) {plaintext resourceKey slot text : String} {drawn : Nat}
    (h : sealForController hpke (some publicKey) plaintext resourceKey slot drawn = .ok text)
    (key place opened : String) :
    openSealed hpke lent text key place = .ok opened ↔
      key = resourceKey ∧ place = slot ∧ opened = plaintext := by
  obtain ⟨lentTo, hfound, rfl⟩ := hlent
  unfold sealForController at h
  cases hkey : controllerKey hpke (some (hpke.publicKey lentTo)) with
  | error problem => simp [hkey] at h
  | ok stored =>
      obtain ⟨keyId, publicKey⟩ := stored
      obtain ⟨hsetting, rfl⟩ := controllerKey_eq_ok hkey
      cases hsetting
      simp only [hkey] at h
      cases hinfo : info resourceKey slot with
      | none => simp [hinfo] at h
      | some shared =>
          simp only [hinfo, Except.ok.injEq] at h
          subst h
          simp only [openSealed, header_sealed hsound, hfound, openCiphertext]
          cases hother : info key place with
          | none =>
              constructor
              · simp
              · rintro ⟨rfl, rfl, -⟩
                simp [hinfo] at hother
          | some asked =>
              by_cases hsame : asked = shared
              · subst hsame
                obtain ⟨rfl, rfl⟩ := info_injective hinfo hother
                simp [hsound.opens, eq_comm]
              · dsimp only
                rw [hsound.binds lentTo shared asked plaintext drawn hsame]
                constructor
                · simp
                · rintro ⟨rfl, rfl, -⟩
                  exact absurd (Option.some.inj (hother.symm.trans hinfo)) hsame

end Sealing

end SeverinoHQ.Secrets
