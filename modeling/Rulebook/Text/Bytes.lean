/-!
# Text from bytes

Bytes are read as UTF-8. The first byte that is no text ends it with a replacement character.
-/

namespace Rulebook.Text

set_option autoImplicit false

def charsFrom (bytes : ByteArray) : Nat → Nat → List Char
  | 0, _ => []
  | fuel + 1, i =>
    if i < bytes.size then
      match bytes.utf8DecodeChar? i with
      | some c => c :: charsFrom bytes fuel (i + c.utf8Size)
      | none => ['\ufffd']
    else []

def ofBytes (bytes : ByteArray) : String :=
  match String.fromUTF8? bytes with
  | some text => text
  | none => String.ofList (charsFrom bytes bytes.size 0)

end Rulebook.Text
