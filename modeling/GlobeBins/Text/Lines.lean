import GlobeBins.Word

namespace GlobeBins.Text

def toBytes (s : String) : Bytes := s.toUTF8.toList

/-- Only well formed UTF-8 is text. -/
def ofBytes? (b : Bytes) : Option String := String.fromUTF8? ⟨b.toArray⟩

/-- `reversed` holds the current line backwards. -/
def linesFrom (reversed : Bytes) : Bytes → List Bytes
  | [] => if reversed.isEmpty then [] else [reversed.reverse]
  | 10::rest =>
    (match reversed with | 13::line => line | line => line).reverse::linesFrom [] rest
  | b::rest => linesFrom (b::reversed) rest

def lines (content : Bytes) : List Bytes := linesFrom [] content

end GlobeBins.Text
