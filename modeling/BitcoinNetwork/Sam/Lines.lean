import BitcoinNetwork.Http.Text

/-!
# Replies of a sam bridge (net/acceptor_sam.cpp)

A reply is a line of tokens, of which the first two tell what it is and one is its result.
-/

namespace BitcoinNetwork.Sam
open Http

inductive Code
  | success
  | serviceStopped
  | serviceSuspended
  | fileSave
  | samNoVersion
  | samCantReachPeer
  | samDuplicatedDest
  | samDuplicatedId
  | samI2pError
  | samInvalidId
  | samInvalidKey
  | samKeyNotFound
  | samPeerNotFound
  | samTimeout
  | samUnassignedFailure
  | samResponseInvalid
  | other (value : ℕ)
  deriving DecidableEq

def maximumLine : ℕ := 65536

def samResult (value : Text) : Code :=
  if value = ascii "OK" then .success
  else if value = ascii "NOVERSION" then .samNoVersion
  else if value = ascii "CANT_REACH_PEER" then .samCantReachPeer
  else if value = ascii "DUPLICATED_DEST" then .samDuplicatedDest
  else if value = ascii "DUPLICATED_ID" then .samDuplicatedId
  else if value = ascii "I2P_ERROR" then .samI2pError
  else if value = ascii "INVALID_ID" then .samInvalidId
  else if value = ascii "INVALID_KEY" then .samInvalidKey
  else if value = ascii "KEY_NOT_FOUND" then .samKeyNotFound
  else if value = ascii "PEER_NOT_FOUND" then .samPeerNotFound
  else if value = ascii "TIMEOUT" then .samTimeout
  else .samUnassignedFailure

/-- What `to_tokens` has read of a line. -/
structure Tokens where
  tokens : List Text := []
  token : Text := []
  quoted : Bool := false
  escaped : Bool := false

def backslash : UInt8 := 92
def quote : UInt8 := 34

def Tokens.put (t : Tokens) (character : UInt8) : Tokens :=
  if t.escaped then { t with token := t.token ++ [character], escaped := false }
  else if t.quoted && character == backslash then { t with escaped := true }
  else if character == quote then { t with quoted := !t.quoted }
  else if character == sp && !t.quoted then
    { t with tokens := if t.token.isEmpty then t.tokens else t.tokens ++ [t.token], token := [] }
  else { t with token := t.token ++ [character] }

/-- The tokens of a line, of which a quoted value is one. -/
def toTokens (line : Text) : List Text :=
  let t := line.foldl Tokens.put {}
  if t.token.isEmpty then t.tokens else t.tokens ++ [t.token]

/-- The value of the first token of a key, empty if the key is not present. -/
def toValue (tokens : List Text) (key : Text) : Text :=
  match tokens.find? (key ++ [61]).isPrefixOf with
  | none => []
  | some token => token.drop (key.length + 1)

def isReply (tokens : List Text) (major minor : Text) : Bool :=
  match tokens with
  | first :: second :: _ => first == major && second == minor
  | _ => false

/-- The code of a line that is to be a reply of the kind. -/
def replied (line major minor : Text) : Code :=
  let tokens := toTokens line
  if !isReply tokens major minor then .samResponseInvalid
  else samResult (toValue tokens (ascii "RESULT"))

/-- The i2p base64 alphabet has `-~` for `+/`. -/
def toStandardBase64 (i2p : Text) : Text :=
  i2p.map fun c => if c = 45 then 43 else if c = 126 then 47 else c

end BitcoinNetwork.Sam
