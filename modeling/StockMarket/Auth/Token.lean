import StockMarket.Auth.Service
import StockMarket.Base64

/-! # Tokens and their texts

`JwtService` signs a JSON object in the compact form: header, payload and signature
with a dot between them. The header is always the same, and the subject stands first
in the payload.
-/

namespace StockMarket.Auth

/-- The claims of a token, in their order. The subject is the id of a user. -/
structure JwtPayload where
  sub : ℕ
  email : String
  iat : ℕ
  exp : ℕ
  deriving DecidableEq, Repr

/-- A text presented as a token: one that the service has signed, or one whose
signature does not verify. -/
inductive Token where
  | signed (payload : JwtPayload)
  | forged (text : String)
  deriving DecidableEq, Repr

/-- The texts of the users' ids, and the signature over header and payload. -/
structure Signing where
  objectId : ℕ → ObjectId
  signature : String → String

/-- A character of a text in JSON. -/
def jsonEscape (c : Char) : List Char :=
  if c = '\x22' ∨ c = '\\' then ['\\', c]
  else if c = '\n' then ['\\', 'n']
  else if c = '\r' then ['\\', 'r']
  else if c = '\t' then ['\\', 't']
  else if c.toNat = 8 then ['\\', 'b']
  else if c.toNat = 12 then ['\\', 'f']
  else if c.toNat < 32 then
    ['\\', 'u', '0', '0', Nat.digitChar (c.toNat / 16), Nat.digitChar (c.toNat % 16)]
  else [c]

def jsonString (s : String) : String :=
  "\"" ++ String.ofList (s.toList.flatMap jsonEscape) ++ "\""

/-- What the payload begins with. -/
def subjectJson (objectId : ObjectId) : String := "\x7b\"sub\":\"" ++ objectId.text ++ "\""

def JwtPayload.json (objectId : ℕ → ObjectId) (payload : JwtPayload) : String :=
  subjectJson (objectId payload.sub) ++ (",\"email\":" ++ jsonString payload.email ++
    ",\"iat\":" ++ toString payload.iat ++ ",\"exp\":" ++ toString payload.exp ++ "\x7d")

def base64url (s : String) : String := String.ofList (Base64.encode s.toUTF8.toList)

def jwtHeader : String := "\x7b\"alg\":\"HS256\",\"typ\":\"JWT\"\x7d"

def Token.text (signing : Signing) : Token → String
  | .signed payload =>
      let input := base64url jwtHeader ++ "." ++ base64url (payload.json signing.objectId)
      input ++ "." ++ signing.signature input
  | .forged text => text

/-- `verifyAsync`: the claims of a signed token, until it expires. -/
def Token.verify (now : Time) : Token → Option JwtPayload
  | .signed payload => if now / 1000 < payload.exp then some payload else none
  | .forged _ => none

theorem Token.verify_some {now : Time} {token : Token} {payload : JwtPayload} :
    token.verify now = some payload ↔ token = .signed payload ∧ now / 1000 < payload.exp := by
  cases token with
  | signed claims =>
    rw [Token.verify, Option.ite_none_right_eq_some, Option.some.injEq, Token.signed.injEq]
    constructor
    · rintro ⟨hexp, rfl⟩
      exact ⟨rfl, hexp⟩
    · rintro ⟨rfl, hexp⟩
      exact ⟨hexp, rfl⟩
  | forged text =>
    constructor
    · intro h
      cases h
    · rintro ⟨h, -⟩
      cases h

/-- `bcrypt.compare`. What is no hash matches nothing. -/
def comparePassword (password : String) : Hash → Bool
  | .bcrypt _ bytes => password.toUTF8.toList.take bcryptBytes = bytes
  | .text _ => false

section Start

/-- What the texts of all tokens of one user begin with. -/
def tokenStart (objectId : ObjectId) : String :=
  base64url jwtHeader ++ "." ++ base64url (subjectJson objectId)

theorem base64url_append {n : ℕ} {s : String} (hs : s.toUTF8.toList.length = 3 * n) (t : String) :
    base64url (s ++ t) = base64url s ++ base64url t := by
  rw [base64url, Base64.toUTF8_append, Base64.encode_append hs, String.ofList_append]
  rfl

theorem ascii_subjectJson (objectId : ObjectId) : Base64.Ascii (subjectJson objectId) := by
  have hself {s : String} (hs : s.toList.all fun c => c.utf8Size = 1) : Base64.Ascii s :=
    .of_subset hs fun _ hc => hc
  apply Base64.Ascii.append
  · apply Base64.Ascii.append
    · exact hself (by decide)
    · exact .of_subset (by decide) objectId.hex_text
  · exact hself (by decide)

theorem length_subjectJson (objectId : ObjectId) :
    (subjectJson objectId).toUTF8.toList.length = 3 * 11 := by
  rw [(ascii_subjectJson objectId).length_toUTF8, subjectJson, String.toList_append,
    String.toList_append, List.length_append, List.length_append, objectId.length_text]
  rfl

theorem length_tokenStart (objectId : ObjectId) :
    bcryptBytes ≤ (tokenStart objectId).toList.length := by
  have hsubject : (base64url (subjectJson objectId)).toList.length = 4 * 11 := by
    rw [base64url, String.toList_ofList, Base64.length_encode (length_subjectJson objectId)]
  have hheader : (base64url jwtHeader).toList.length = 36 := by
    decide +kernel
  rw [tokenStart, String.toList_append, String.toList_append, List.length_append,
    List.length_append, hsubject, hheader]
  decide

theorem text_signed (signing : Signing) (payload : JwtPayload) :
    ∃ rest, (Token.signed payload).text signing =
      tokenStart (signing.objectId payload.sub) ++ rest := by
  simp only [Token.text, JwtPayload.json, base64url_append (length_subjectJson _), tokenStart,
    String.append_assoc]
  exact ⟨_, rfl⟩

/-- The bytes of a token that `bcrypt` looks at are the same for all tokens of one user. -/
theorem take_text_signed (signing : Signing) (payload : JwtPayload) :
    ((Token.signed payload).text signing).toUTF8.toList.take bcryptBytes =
      (tokenStart (signing.objectId payload.sub)).toUTF8.toList.take bcryptBytes := by
  obtain ⟨rest, hrest⟩ := text_signed signing payload
  rw [hrest, Base64.take_toUTF8_append (length_tokenStart _)]

end Start

end StockMarket.Auth
