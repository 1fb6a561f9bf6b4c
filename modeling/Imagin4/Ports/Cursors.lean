import Imagin4.Verified.Base64
import Imagin4.Ports.ComfyOverrides
import Imagin4.Ports.JsonLoads

/-!
# Page cursors

`Cursor` of `app/domain/conversations/pagination.py`: a position of a listing as
URL-safe base64 of compact JSON.  `Cursor.decode` wraps whatever goes wrong into an
`InvalidCursorError`.

## Main results

* `Cursor.decode_encode` — an integer sort key and an id come back as they were, as
  long as `json.dumps` prints the integer at all.
-/

namespace Imagin4.Ports

open Imagin4.Verified

/-! ## Bytes and text -/

/-- `s.encode("utf-8")`. -/
def encodeUtf8 (cs : List Char) : List UInt8 := cs.flatMap String.utf8EncodeChar

/-- The bytes of a surrogate, replaced by those of U+FFFD.  No other code point has the
byte `0xed` in front of one from `0xa0` on. -/
def passSurrogates : List UInt8 → List UInt8
  | a :: b :: c :: rest =>
      if a = 0xed ∧ 0xa0 ≤ b ∧ b ≤ 0xbf ∧ 0x80 ≤ c ∧ c ≤ 0xbf then
        0xef :: 0xbf :: 0xbd :: passSurrogates rest
      else a :: passSurrogates (b :: c :: rest)
  | bytes => bytes

/-- `b.decode("utf-8", "surrogatepass")`: the error handler is for the bytes that are
no UTF-8. -/
def decodeUtf8 (bytes : List UInt8) : Option (List Char) :=
  ((String.fromUTF8? bytes.toByteArray).or
    (String.fromUTF8? (passSurrogates bytes).toByteArray)).map String.toList

theorem decodeUtf8_encodeUtf8 (cs : List Char) :
    decodeUtf8 (encodeUtf8 cs) = some cs := by
  have hbytes : (encodeUtf8 cs).toByteArray = cs.utf8Encode := rfl
  unfold decodeUtf8
  rw [hbytes, String.fromUTF8?, dif_pos ByteArray.isValidUTF8_utf8Encode,
    Option.some_or, Option.map_some, Option.some.injEq, ← String.ofList_inj, String.ofList_toList,
    ← String.toByteArray_inj, String.toByteArray_ofList]
  rfl

/-- `json.detect_encoding(b)`. -/
def detectEncoding (bytes : List UInt8) : String :=
  if [0, 0, 0xfe, 0xff].isPrefixOf bytes || [0xff, 0xfe, 0, 0].isPrefixOf bytes then
    "utf-32"
  else if [0xfe, 0xff].isPrefixOf bytes || [0xff, 0xfe].isPrefixOf bytes then "utf-16"
  else if [0xef, 0xbb, 0xbf].isPrefixOf bytes then "utf-8-sig"
  else
    match bytes with
    | a :: b :: c :: d :: _ =>
        if a = 0 then if b ≠ 0 then "utf-16-be" else "utf-32-be"
        else if b = 0 then if c ≠ 0 ∨ d ≠ 0 then "utf-16-le" else "utf-32-le"
        else "utf-8"
    | [a, b] =>
        if a = 0 then "utf-16-be"
        else if b = 0 then "utf-16-le"
        else "utf-8"
    | _ => "utf-8"

/-- What listing pages takes from Python's library besides: the decoders of UTF-16
and UTF-32, by their names, with U+FFFD for a lone surrogate, and how many lists and
objects may be nested where `json.loads` is called before the recursion limit is
reached. -/
structure PageHost extends AdmissionHost where
  wideText : String → List UInt8 → Option (List Char)
  nesting : Nat
  nesting_pos : 0 < nesting

namespace PageHost

variable (host : PageHost)

/-- The text `json.loads` reads of some bytes. -/
def jsonText (bytes : List UInt8) : Option (List Char) :=
  let encoding := detectEncoding bytes
  if encoding = "utf-8" then decodeUtf8 bytes
  else if encoding = "utf-8-sig" then decodeUtf8 (bytes.drop 3)
  else host.wideText encoding bytes

end PageHost

/-! ## What `json.dumps` refuses -/

namespace Json

/-- `json.dumps(x, separators=(",", ":"))`. -/
def dumpsCompact (floats : FloatText) (x : Json) : Except PyError (List Char) :=
  if x.printable then .ok (x.print floats) else .error "ValueError"

end Json

/-! ## Cursors -/

/-- `Cursor`.  Nothing checks that the `id` of a decoded one is a string. -/
structure Cursor where
  sortKey : Json
  id : Json

namespace Cursor

variable (host : PageHost)

/-- What a cursor is written as. -/
def payload (c : Cursor) : Json := .obj [("k", c.sortKey), ("id", c.id)]

/-- `Cursor.encode`. -/
def encode (c : Cursor) : Except PyError String := do
  let text ← c.payload.dumpsCompact host.floats
  .ok (String.ofList (Alphabet.urlSafe.encode (encodeUtf8 text)))

/-- The dictionary in a token: `json.loads(base64.urlsafe_b64decode(token))`. -/
def read (token : String) : Option Json :=
  if token.toList.any (fun c => 128 ≤ c.toNat) then none
  else
    ((Alphabet.urlSafe.decode token.toList).bind host.jsonText).bind
      (loads host.floatOfStr host.nesting)

/-- `Cursor.decode`. -/
def decode (token : String) : Except PyError Cursor :=
  match read host token with
  | none => .error "InvalidCursorError"
  | some data =>
      match data.item "k", data.item "id" with
      | .ok sortKey, .ok id => .ok ⟨sortKey, id⟩
      | _, _ => .error "InvalidCursorError"

/-! ## The round trip -/

/-- An ASCII text is no UTF-16 or UTF-32, and has no mark in front. -/
theorem detectEncoding_brace (bytes : List UInt8) :
    detectEncoding (0x7b :: 0x22 :: bytes) = "utf-8" := by
  cases bytes with
  | nil => rfl
  | cons c rest =>
      cases rest with
      | nil => rfl
      | cons d rest => rfl

theorem jsonText_brace (cs : List Char) :
    host.jsonText (encodeUtf8 (Char.ofNat 123 :: '"' :: cs)) =
      some (Char.ofNat 123 :: '"' :: cs) := by
  have hencoding : detectEncoding (encodeUtf8 (Char.ofNat 123 :: '"' :: cs)) =
      "utf-8" := detectEncoding_brace (encodeUtf8 cs)
  unfold PageHost.jsonText
  rw [hencoding]
  exact decodeUtf8_encodeUtf8 _

/-- The members of a cursor, behind the opening bracket. -/
def membersText (k : Int) (s : String) : List Char :=
  Json.quote "k" ++ ':' :: (k.repr.toList ++ ',' ::
    (Json.quote "id" ++ ':' :: (Json.quote s ++ [Char.ofNat 125])))

theorem print_payload (floats : FloatText) (k : Int) (s : String) :
    (payload ⟨.int k, .str s⟩).print floats =
      Char.ofNat 123 :: membersText k s := by
  simp [payload, Json.print, Json.printMembers, membersText]

theorem scanMembers_membersText (floatOfStr : String → Option PyFloat)
    (fuel depth : Nat) {k : Int} (hk : k.natAbs.repr.length ≤ maxStrDigits)
    (s : String) :
    scanMembers floatOfStr (fuel + 3) depth [] (membersText k s) =
      some (payload ⟨.int k, .str s⟩, []) := by
  have hid : scanMembers floatOfStr (fuel + 2) depth [("k", .int k)]
      (Json.quote "id" ++ ':' :: (Json.quote s ++ [Char.ofNat 125])) =
      some (payload ⟨.int k, .str s⟩, []) := by
    rw [scanMembers_quote floatOfStr _ "id" ?_
      (scanOnce_str floatOfStr fuel depth s [Char.ofNat 125])]
    · rfl
    · rw [quote_append]
      exact skipSpace_cons rfl _
  have hcomma : Json.Delim (',' ::
      (Json.quote "id" ++ ':' :: (Json.quote s ++ [Char.ofNat 125]))) :=
    Json.delim_cons rfl _
  unfold membersText
  rw [scanMembers_quote floatOfStr [] "k" (skipSpace_repr k _)
    (scanOnce_int floatOfStr (fuel + 1) depth hk hcomma), skipSpace_cons rfl]
  exact hid

/-- What has been printed is loaded. -/
theorem loads_payload (floatOfStr : String → Option PyFloat) (floats : FloatText)
    {depth : Nat} (hdepth : 0 < depth) {k : Int}
    (hk : k.natAbs.repr.length ≤ maxStrDigits) (s : String) :
    loads floatOfStr depth ((payload ⟨.int k, .str s⟩).print floats) =
      some (payload ⟨.int k, .str s⟩) := by
  have hskip : skipSpace (membersText k s) = membersText k s := by
    unfold membersText
    rw [quote_append]
    exact skipSpace_cons rfl _
  have hhead : (membersText k s).head? ≠ some (Char.ofNat 125) := by
    unfold membersText
    rw [quote_append, List.head?_cons]
    decide
  have hlength : ∃ n, (membersText k s).length + 1 = n + 3 := by
    refine ⟨(membersText k s).length - 2, ?_⟩
    unfold membersText
    rw [quote_append]
    simp only [List.length_cons, List.length_append]
    omega
  obtain ⟨n, hn⟩ := hlength
  rw [print_payload, loads, skipSpace_cons rfl, List.length_cons, hn, scanOnce,
    if_neg (by decide), if_neg (fun h => absurd h.2 (Nat.ne_of_gt hdepth)),
    if_pos (by decide), hskip, if_neg hhead,
    scanMembers_membersText floatOfStr n (depth - 1) hk s]
  rfl

/-- **Round trip** of an integer and an id. -/
theorem decode_encode {k : Int} (hk : k.natAbs.repr.length ≤ maxStrDigits)
    (s : String) :
    ∃ token, encode host ⟨.int k, .str s⟩ = .ok token ∧
      decode host token = .ok ⟨.int k, .str s⟩ := by
  have hprintable : (payload ⟨.int k, .str s⟩).printable = true := by
    simp [payload, Json.printable, Json.printableMembers, hk]
  obtain ⟨cs, hcs⟩ : ∃ cs, (payload ⟨.int k, .str s⟩).print host.floats =
      Char.ofNat 123 :: '"' :: cs := by
    rw [print_payload, membersText, quote_append]
    exact ⟨_, rfl⟩
  have hloads := loads_payload host.floatOfStr host.floats host.nesting_pos hk s
  rw [hcs] at hloads
  refine ⟨String.ofList (Alphabet.urlSafe.encode
    (encodeUtf8 (Char.ofNat 123 :: '"' :: cs))), ?_, ?_⟩
  · unfold encode Json.dumpsCompact
    rw [if_pos hprintable, hcs]
    rfl
  · have hascii : ¬ ((Alphabet.urlSafe.encode
        (encodeUtf8 (Char.ofNat 123 :: '"' :: cs))).any
          (fun c => 128 ≤ c.toNat)) = true := by
      rw [List.any_eq_true]
      rintro ⟨c, hc, hle⟩
      have hlt := Alphabet.ascii_urlSafe hc
      simp only [decide_eq_true_eq] at hle
      omega
    unfold decode read
    rw [String.toList_ofList, if_neg hascii, Alphabet.decode_encode,
      Option.bind_some, jsonText_brace, Option.bind_some, hloads]
    rfl

/-- An integer that `json.dumps` does not print is no cursor. -/
theorem encode_error {k : Int} (hk : maxStrDigits < k.natAbs.repr.length) (id : Json) :
    encode host ⟨.int k, id⟩ = .error "ValueError" := by
  have hprintable : ¬ (payload ⟨.int k, id⟩).printable = true := by
    simp only [payload, Json.printable, Json.printableMembers, Bool.and_eq_true,
      decide_eq_true_eq]
    omega
  unfold encode Json.dumpsCompact
  rw [if_neg hprintable]
  rfl

/-- No token is empty. -/
theorem ne_empty_of_decode {token : String} {c : Cursor}
    (h : decode host token = .ok c) : token ≠ "" := by
  rintro rfl
  cases h

end Cursor

end Imagin4.Ports
