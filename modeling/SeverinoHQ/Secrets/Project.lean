/-
# What a vault's items become

Pure: vault items in, and out of them the application environment, the connections
document, and the SSH identities and signing keys that connections name. It reads
no file and opens no socket. Refusals carry their text.
-/

import Mathlib.Algebra.Group.Nat.Defs
import Mathlib.Data.List.Sort
import SeverinoHQ.Math.Bytes
import SeverinoHQ.Math.Text

namespace SeverinoHQ.Secrets

open SeverinoHQ.Math

/-! ## The vault -/

/-- A field of an item. -/
structure Field where
  id : String
  label : Option String
  value : Option String
  deriving DecidableEq, Repr

/-- An item, with the addresses it lists. -/
structure FullItem where
  id : Option String
  title : Option String
  fields : List Field
  urls : List String
  state : Option String
  version : Option Int
  deriving DecidableEq, Repr

/-- The vault being rendered: how the host names it, and what Connect says its
identifier and name are. -/
structure Vault where
  configured : String
  id : String
  name : String
  deriving DecidableEq, Repr

/-- Where one variable of a projection comes from. -/
structure Entry where
  source : String
  id : String := ""
  label : String := ""
  value : String := ""
  index : Option Nat := none
  optional : Bool := false
  default : String := ""
  deriving DecidableEq, Repr

structure Registry where
  projections : List (String × List (String × Entry))
  requiredAppVariables : List String
  deriving DecidableEq, Repr

/-- One consistent read of the vault and what to make of it. -/
structure Input where
  registry : Registry
  vault : Vault
  envItem : String
  items : List FullItem
  holdsConnections : Bool
  deriving DecidableEq, Repr

/-- An optional Connect string, empty when Connect left it out. -/
def text (value : Option String) : String := value.getD ""

/-- One field's value by label, or empty; two fields with the label are an error. -/
def byLabel (item : FullItem) (label : String) : Except String String :=
  match item.fields.filter fun field => text field.label == label with
  | [] => .ok ""
  | [field] => .ok (text field.value)
  | _ => .error "Duplicate connection metadata."

/-- The items whose title or identifier is `name`. -/
def named (items : List FullItem) (name : String) : List FullItem :=
  items.filter fun item => text item.id == name || text item.title == name

/-! ## The application environment -/

def isUpper (c : Char) : Bool := 'A' ≤ c && c ≤ 'Z'

def isDigit (c : Char) : Bool := '0' ≤ c && c ≤ '9'

def isAlphanumeric (c : Char) : Bool := isUpper c || 'a' ≤ c && c ≤ 'z' || isDigit c

/-- `^[A-Z][A-Z0-9_]+$`. -/
def appVariable (label : String) : Bool :=
  match label.toList with
  | first :: second :: rest =>
      isUpper first && (second :: rest).all fun c => isUpper c || isDigit c || c == '_'
  | _ => false

/-- The value with each single quote closed, escaped and opened again. -/
def quoted (value : String) : String :=
  String.ofList (value.toList.flatMap fun c => if c = '\'' then ['\'', '\\', '\'', '\''] else [c])

/-- The lines of the fields left, the labels before them, and how many were rendered. -/
def appLines (seen : List String) : List Field → Except String (String × List String)
  | [] => .ok ("", seen)
  | field :: fields =>
      let label := text field.label
      let value := text field.value
      if !appVariable label || value == "" then appLines seen fields
      else if Text.containsAny value ['\x00', '\r'] then
        .error "Refusing: an application variable holds a NUL byte or a carriage return."
      else if label ∈ seen then .error "Refusing: an application variable is set twice."
      else
        match appLines (seen ++ [label]) fields with
        | .error refusal => .error refusal
        | .ok (lines, all) => .ok (label ++ "='" ++ quoted value ++ "'\n" ++ lines, all)

/-- The environment item's UPPER_SNAKE fields as shell-quoted `KEY='value'` lines, and
how many they are. -/
def appEnvironment (input : Input) : Except String (String × Nat) :=
  match named input.items input.envItem with
  | [item] =>
      match appLines [] item.fields with
      | .error refusal => .error refusal
      | .ok (lines, seen) =>
          if lines = "" then .error "Refusing an empty render."
          else if Text.contains lines "op://" then
            .error "Refusing: an unresolved reference survived injection."
          else
            match input.registry.requiredAppVariables.filter fun name => name ∉ seen with
            | [] => .ok (lines, seen.length)
            | missing =>
                .error ("Refusing an application environment without " ++
                  ", ".intercalate missing ++ ".")
  | found =>
      .error ("The application environment item must resolve to exactly one item; found " ++
        toString found.length ++ ".")

/-! ## Connections -/

structure Store where
  vault : String
  item : String
  bootstrap : String := ""
  deriving DecidableEq, Repr

/-- One connection, with its settings under the one shape it arrived in. -/
structure Connection where
  ref : String
  provider : String
  manages : Bool
  store : Store
  shape : String
  settings : List (String × String)
  deriving DecidableEq, Repr

/-- The settings each shape declares, and whether it requires them. -/
def shapes : List (String × List (String × Bool)) :=
  [("acme", [("DIRECTORY_URL", true), ("EMAIL", true)]),
    ("api_token", [("API_TOKEN", true), ("URL", true)]),
    ("github_app", [("APP_ID", true), ("SIGNING_KEY", true)]),
    ("login", [("PASSWORD", true), ("URL", true), ("USERNAME", true)]),
    ("oauth_client", [("CLIENT_ID", true), ("CLIENT_SECRET", true)]),
    ("service_account", [("API_TOKEN", true)]),
    ("ssh_transport", [("HOST", true), ("HOST_KEY", true), ("IDENTITY", true), ("PORT", true),
      ("ROLE", false), ("USER", true)])]

/-- A setting of the connection, empty where it holds none. -/
def Connection.setting (connection : Connection) (name : String) : String :=
  (connection.settings.lookup name).getD ""

/-- Whether the named shape is declared, and declares every setting. -/
def declares (shape : String) (settings : List (String × String)) : Bool :=
  match shapes.lookup shape with
  | some declared => settings.all fun setting => (declared.lookup setting.1).isSome
  | none => false

/-- `^[a-zA-Z0-9][a-zA-Z0-9_.-]*$`. -/
def validRef (ref : String) : Bool :=
  match ref.toList with
  | first :: rest =>
      isAlphanumeric first && rest.all fun c => isAlphanumeric c || c == '_' || c == '.' || c == '-'
  | [] => false

/-- `^[A-Z][A-Z0-9_]*$`. -/
def validName (name : String) : Bool :=
  match name.toList with
  | first :: rest => isUpper first && rest.all fun c => isUpper c || isDigit c || c == '_'
  | [] => false

/-- The namespaces of what the launcher and the image set for themselves. -/
def reservedPrefixes : List String :=
  ["HQ", "SEVERINO", "DJANGO", "PYTHON", "OP", "SSL", "LC"]

def reserved (envPrefix : String) : Bool :=
  reservedPrefixes.any fun name => envPrefix == name || Text.hasPrefix envPrefix (name ++ "_")

def hasControl (value : String) : Bool :=
  value.toList.any fun c => c.toNat < 0x20 || c.toNat = 0x7f

/-- An item's manages field: only an explicit yes allows writes. No character but an
ASCII one lowers to a letter of these words. -/
def manages (value : String) : Bool :=
  (Text.trimSpace value).toLower ∈ ["1", "true", "yes"]

/-- What the renderer uses of the libraries under it: folding of case, the JSON encoder,
and package ssh and x509. -/
structure Library where
  /-- `strings.EqualFold`. -/
  equalFold : String → String → Bool
  /-- The connections document's JSON encoding. -/
  encodeDocument : List Connection → Bytes
  /-- A private key's and a public key's type. -/
  Private : Type
  Public : Type
  decidePublic : DecidableEq Public
  parsePrivate : String → Option Private
  /-- The public half, for a key of a supported type. -/
  signer : Private → Option Public
  /-- One authorized-keys entry and what follows it. -/
  parseAuthorized : String → Option (Public × String)
  isEd25519 : Public → Bool
  marshalAuthorized : Public → Bytes
  /-- The OpenSSH encoding of a private key, which holds random check bytes. -/
  marshalPrivate : Private → Bytes → Option Bytes
  marshalPKCS8 : Private → Option Bytes
  /-- The public half of an installed OpenSSH private key. -/
  readInstalled : Bytes → Option Public

instance (library : Library) : DecidableEq library.Public := library.decidePublic

variable (library : Library)

/-- Accepts `op://<vault>/<item>` in a vault the renderer does not read, under every
name that vault answers to. -/
def checkBootstrap (vault : Vault) (ref bootstrap : String) : Except String Unit :=
  if ¬Text.hasPrefix bootstrap "op://" ∨ hasControl bootstrap then
    .error ("Connection " ++ ref ++ " has an invalid bootstrap reference.")
  else
    let parts := (Text.split '/' (bootstrap.toList.drop 5)).map String.ofList
    let inVault := Text.trimSpace (parts.headD "")
    if [vault.configured, vault.id, vault.name].any fun own =>
        Text.trimSpace own != "" && library.equalFold inVault (Text.trimSpace own) then
      .error ("Connection " ++ ref ++
        " keeps its bootstrap credential in the vault the controller reads.")
    else
      match parts with
      | _ :: _ :: _ :: _ =>
          .error ("Connection " ++ ref ++
            " names a bootstrap field; name the item: op://<vault>/<item>.")
      | [first, second] =>
          if first != "" && second != "" then .ok ()
          else .error ("Connection " ++ ref ++ " has an invalid bootstrap reference.")
      | _ => .error ("Connection " ++ ref ++ " has an invalid bootstrap reference.")

/-- A connection as its projection fills it in. -/
structure Filling where
  provider : String := ""
  manages : Bool := false
  settings : List (String × String) := []

/-- The value one entry of a projection reads. -/
def entryValue (ref : String) (item : FullItem) (entry : Entry) : Except String String :=
  if entry.source = "connection_ref" then .ok ref
  else if entry.source = "constant" then .ok entry.value
  else if entry.source = "url" then .ok ((entry.index.bind fun index => item.urls[index]?).getD "")
  else if entry.source = "field" then
    let kind := if entry.id ≠ "" then "id" else "label"
    let selector := if entry.id ≠ "" then entry.id else entry.label
    let matched := item.fields.filter fun field =>
      if kind = "id" then field.id == selector else text field.label == selector
    if matched.length = 0 ∧ entry.optional then .ok entry.default
    else
      match matched with
      | [field] => .ok (text field.value)
      | _ =>
          .error ("Connection " ++ ref ++ " must contain exactly one field " ++ kind ++ "=" ++
            selector ++ "; found " ++ toString matched.length ++ ".")
  else .ok ""

/-- One variable of a projection, in the order they render in. -/
def fill (ref : String) (item : FullItem) (filling : Filling) (setting : String) (entry : Entry) :
    Except String Filling := do
  let read ← entryValue ref item entry
  let value := if read = "" ∧ entry.optional then entry.default else read
  if value = "" then
    if entry.optional then .ok filling
    else .error ("Connection " ++ ref ++ " is missing " ++ setting ++ ".")
  else if hasControl value then
    .error ("Connection " ++ ref ++ " has a control character in " ++ setting ++ ".")
  else if Text.contains value "op://" then
    .error "Refusing: an unresolved reference survived injection."
  else if setting = "CONNECTION_REF" then .ok filling
  else if setting = "PROVIDER" then .ok { filling with provider := value }
  else if setting = "MANAGES" then .ok { filling with manages := manages value }
  else .ok { filling with settings := filling.settings ++ [(setting, value)] }

def lineBreaks : List Char := ['\x00', '\r', '\n']

/-- One connection item as a connection and the `env_prefix` it names itself by; none
for an item that is not a connection. -/
def connection (input : Input) (item : FullItem) : Except String (Option (Connection × String)) := do
  let ref ← byLabel item "connection_ref"
  if ref = "" then .ok none
  else if (item.fields.any fun field => Text.containsAny (text field.value) lineBreaks) ||
      item.urls.any fun url => Text.containsAny url lineBreaks then
    .error "Invalid controller field value."
  else if ¬validRef ref then .error "Connection has an invalid connection_ref."
  else
    let name ← byLabel item "projection"
    let envPrefix ← byLabel item "env_prefix"
    if name = "" ∨ envPrefix = "" then
      .error ("Connection " ++ ref ++ " declares no projection or env_prefix.")
    else if ¬validName envPrefix then .error "Connection has an invalid env_prefix."
    else if reserved envPrefix then
      .error ("Connection " ++ ref ++ " declares an env_prefix the controller's own settings use.")
    else
      match input.registry.projections.lookup name with
      | none => .error ("Connection " ++ ref ++ " names an unknown projection.")
      | some projection =>
          let ordered := projection.insertionSort fun first second => first.1 ≤ second.1
          let filling ← ordered.foldlM (fun filling entry =>
            fill ref item filling entry.1 entry.2) {}
          let provider := if filling.provider = "" then envPrefix.toLower else filling.provider
          if ¬declares name filling.settings then
            .error ("Connection " ++ ref ++ " names a projection the controller does not read.")
          else if hasControl input.vault.configured ∨ input.vault.configured = "" then
            .error "The vault name is not a single line."
          else
            let bootstrap ← byLabel item "bootstrap"
            let () ← if bootstrap = "" then .ok () else checkBootstrap library input.vault ref bootstrap
            .ok (some ({
              ref, provider
              manages := filling.manages
              store := { vault := input.vault.configured, item := text item.id, bootstrap }
              shape := name
              settings := filling.settings }, envPrefix))

/-- Every connection item of the read, in the order of the items' identifiers, with the
references and prefixes before it. -/
def inventoryFrom (input : Input) (refs prefixes : List String) :
    List FullItem → Except String (List Connection)
  | [] => .ok []
  | item :: items => do
      match ← connection library input item with
      | none => inventoryFrom input refs prefixes items
      | some (found, envPrefix) =>
          if found.ref ∈ refs then
            .error ("More than one 1Password item declares connection_ref=" ++ found.ref ++ ".")
          else if envPrefix ∈ prefixes then
            .error "More than one connection declares the same env_prefix."
          else
            let rest ← inventoryFrom input (refs ++ [found.ref]) (prefixes ++ [envPrefix]) items
            .ok (found :: rest)

def inventory (input : Input) : Except String (List Connection) :=
  inventoryFrom library input [] []
    (input.items.insertionSort fun first second => text first.id ≤ text second.id)

/-! ## The document -/

def singleLine (value : String) : Bool := !Text.containsAny value lineBreaks

/-- A connection neither side could misread. -/
def Connection.valid (connection : Connection) : Bool :=
  validRef connection.ref && connection.provider != "" && singleLine connection.provider &&
    connection.store.vault != "" && connection.store.item != "" &&
    singleLine (connection.store.vault ++ connection.store.item ++ connection.store.bootstrap) &&
    match shapes.lookup connection.shape with
    | some declared => declared.all fun setting =>
        !(connection.setting setting.1 == "" && setting.2) && singleLine (connection.setting setting.1)
    | none => false

/-- `Validate`: every connection is valid, and none repeats a reference. -/
def validDocument (connections : List Connection) : Bool :=
  connections.all Connection.valid && decide (connections.map Connection.ref).Nodup

/-- The bound on a document. -/
def maxBytes : Nat := 2 ^ 20

/-- The document's one serialization: validated, connections sorted by reference. -/
def encode (connections : List Connection) : Option Bytes :=
  if validDocument connections then
    let encoded := library.encodeDocument
      (connections.insertionSort fun first second => first.ref ≤ second.ref)
    if encoded.length ≤ maxBytes then some encoded else none
  else none

/-! ## Identities and signing keys -/

/-- One file of the controller's SSH directory. `same` is the public half an installed
file has when it already is this one; where there is none, bytes are compared. -/
structure File where
  name : String
  data : Bytes
  mode : Nat
  same : Option library.Public

/-- The name of the pinned host keys beside the identities. -/
def knownHosts : String := "known_hosts"

/-- `^[A-Za-z0-9][A-Za-z0-9.:-]*$`. -/
def sshHost (host : String) : Bool :=
  match host.toList with
  | first :: rest =>
      isAlphanumeric first && rest.all fun c => isAlphanumeric c || c == '.' || c == ':' || c == '-'
  | [] => false

/-- `^[A-Za-z_][A-Za-z0-9_.-]{0,31}$`. -/
def sshUser (user : String) : Bool :=
  match user.toList with
  | first :: rest =>
      (isAlphanumeric first && !isDigit first || first == '_') && decide (rest.length ≤ 31) &&
        rest.all fun c => isAlphanumeric c || c == '_' || c == '.' || c == '-'
  | [] => false

/-- A port of decimal digits from 1 to 65535. -/
def sshPort (port : String) : Option Nat :=
  if port ≠ "" ∧ port.toList.all isDigit then
    port.toNat?.filter fun number => 1 ≤ number && number ≤ 65535
  else none

/-- An SSH Key item's private or public half, by the field's stable id or its label. -/
def keyField (item : FullItem) (id label : String) : Option String :=
  match item.fields.filter fun field => field.id == id || text field.label == label with
  | [field] => if text field.value = "" then none else some (text field.value)
  | _ => none

/-- A key item's halves, shown to be one key, or what is wrong with them. -/
def pair (items : List FullItem) (name : String) :
    Except String (library.Private × library.Public) :=
  match named items name with
  | [item] =>
      match keyField item "private_key" "private key", keyField item "public_key" "public key" with
      | none, _ => .error "names an item with no single private key"
      | some _, none => .error "names an item with no single public key"
      | some secretHalf, some publicHalf =>
          match library.parsePrivate secretHalf with
          | none => .error "names a private key that cannot be read"
          | some raw =>
              match library.signer raw, library.parseAuthorized publicHalf with
              | none, _ => .error "names a private key of an unsupported type"
              | some _, none => .error "names a public key that cannot be read"
              | some half, some (parsed, _) =>
                  if half = parsed then .ok (raw, parsed)
                  else .error "private and public halves do not match"
  | found =>
      .error ("names a key item the vault holds " ++ toString found.length ++ " of")

def keyName (value : String) : Bool :=
  value != "" && !Text.contains value "/" && !Text.hasPrefix value "op:"

/-- Whether a reference can name identity files without colliding with another file of
the directory or leaving it. -/
def fileName (ref : String) : Bool :=
  ref != "" && ref != knownHosts && !Text.hasPrefix ref "." && !Text.contains ref "/" &&
    !Text.hasSuffix ref ".pub" && !Text.hasSuffix ref ".key"

/-- The bytes of a text. -/
def utf8 (text : String) : Bytes := text.toUTF8.toList

/-- What the connections so far add to the SSH directory. -/
structure Keys where
  files : List (File library)
  hosts : Bytes
  identities : Nat
  signing : Nat

variable {library}

def Keys.empty : Keys library := ⟨[], [], 0, 0⟩

/-- The identity of a connection that opens a shell, with its host key pinned. -/
def identityOf (input : Input) (entropy : Bytes) (keys : Keys library) (connection : Connection) :
    Except String (Keys library) :=
  let ref := connection.ref
  let refuse (said : String) : Except String (Keys library) :=
    .error ("Connection " ++ ref ++ said)
  let hostKey := connection.setting "HOST_KEY"
  if ¬fileName ref then refuse " has a name its identity files would collide with."
  else if ¬keyName (connection.setting "IDENTITY") then refuse " names an invalid identity item."
  else if ¬sshHost (connection.setting "HOST") then refuse " has an invalid host."
  else if ¬sshUser (connection.setting "USER") then refuse " has an invalid user."
  else
    match sshPort (connection.setting "PORT") with
    | none => refuse " has an invalid port."
    | some port =>
        match library.parseAuthorized hostKey with
        | none => refuse " must pin an ssh-ed25519 host key."
        | some (pinned, rest) =>
            if ¬Text.hasPrefix hostKey "ssh-ed25519 " ∨ ¬library.isEd25519 pinned ∨
                Text.trimSpace rest ≠ "" then
              refuse " must pin an ssh-ed25519 host key."
            else
              match pair library input.items (connection.setting "IDENTITY") with
              | .error problem => refuse (": the identity " ++ problem ++ ".")
              | .ok (raw, half) =>
                  match library.marshalPrivate raw entropy with
                  | none => refuse ": the identity cannot be written for ssh."
                  | some block =>
                      let host := connection.setting "HOST"
                      let known := if port = 22 then host else s!"[{host}]:{port}"
                      .ok {
                        keys with
                        files := keys.files ++
                          [⟨ref, block, 0o400, some half⟩,
                            ⟨ref ++ ".pub", library.marshalAuthorized half, 0o444, none⟩]
                        hosts := keys.hosts ++ utf8 (known ++ " ") ++
                          Bytes.trimSpace (library.marshalAuthorized pinned) ++ utf8 "\n"
                        identities := keys.identities + 1 }

/-- The signing key of a connection that signs. -/
def signingOf (input : Input) (keys : Keys library) (connection : Connection) :
    Except String (Keys library) :=
  let ref := connection.ref
  let refuse (said : String) : Except String (Keys library) :=
    .error ("Connection " ++ ref ++ said)
  if ¬fileName ref then refuse " has an invalid name."
  else if ¬keyName (connection.setting "SIGNING_KEY") then
    refuse " names an invalid signing key item."
  else
    match pair library input.items (connection.setting "SIGNING_KEY") with
    | .error problem => refuse (": the signing key " ++ problem ++ ".")
    | .ok (raw, half) =>
        match library.marshalPKCS8 raw with
        | none => refuse ": the signing key cannot be written as PKCS#8."
        | some der =>
            .ok {
              keys with
              files := keys.files ++
                [⟨ref ++ ".key", der, 0o400, none⟩,
                  ⟨ref ++ ".key.pub", library.marshalAuthorized half, 0o444, none⟩]
              signing := keys.signing + 1 }

/-- What one connection adds; `entropy` is the random bytes its encoding draws. -/
def keysOf (input : Input) (entropy : String → Bytes) (keys : Keys library)
    (connection : Connection) : Except String (Keys library) :=
  if connection.shape = "ssh_transport" then
    identityOf input (entropy connection.ref) keys connection
  else if connection.shape = "github_app" then signingOf input keys connection
  else .ok keys

/-- The SSH directory: every identity and signing key with its public half, and
known_hosts, sorted by name. -/
def keys (input : Input) (entropy : String → Bytes) (document : List Connection) :
    Except String (List (File library) × Nat × Nat) := do
  let found ← document.foldlM (keysOf input entropy) Keys.empty
  let files := found.files ++ [⟨knownHosts, found.hosts, 0o444, none⟩]
  .ok (files.insertionSort fun first second => first.name ≤ second.name,
    found.identities, found.signing)

/-! ## One render -/

/-- What the whole read renders beside the application environment. -/
structure Whole (library : Library) where
  document : List Connection
  encoded : Bytes
  ssh : List (File library)
  identities : Nat
  signingKeys : Nat

/-- Everything one render installs: the connections, identities and signing keys are
withheld where the read resolves no connection and some are installed. -/
structure Output (library : Library) where
  appEnv : String
  appVariables : Nat
  whole : Except String (Whole library)

/-- Renders one read of the vault. Any refusal refuses the whole render but the one that
keeps the installed connections. -/
def project (library : Library) (input : Input) (entropy : String → Bytes) :
    Except String (Output library) := do
  let (appEnv, appVariables) ← appEnvironment input
  let document ← inventory library input
  if document.length = 0 ∧ input.holdsConnections then
    .ok {
      appEnv, appVariables
      whole := .error
        "Refusing to replace the installed connections with a vault that resolved none; they are kept." }
  else
    match encode library document with
    | none => .error "Refusing a connections document the controller would not read."
    | some encoded =>
        let (ssh, identities, signingKeys) ← keys input entropy document
        .ok { appEnv, appVariables, whole := .ok { document, encoded, ssh, identities, signingKeys } }

end SeverinoHQ.Secrets
