import MachTree.Text.Utf8

/-! Bytes as text: each byte as the character of its value. -/
namespace MachTree
namespace Text

def charsOf (bytes : List UInt8) : List Char := bytes.map fun b => Char.ofNat b.toNat

def bytesOf (cs : List Char) : List UInt8 := cs.map fun c => c.toNat.toUInt8

def encoded (s : String) : List Char := charsOf s.toUTF8.toList

def decoded (cs : List Char) : String := String.ofList (Utf8.decodeLenient (bytesOf cs))

end Text
end MachTree
