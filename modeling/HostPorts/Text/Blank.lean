/-!
The characters with the Unicode property White_Space, and cutting them off the ends of a text.
-/
namespace HostPorts.Text

def isBlank (c : Char) : Bool :=
  let n := c.toNat
  (9 ≤ n && n ≤ 13) || n = 0x20 || n = 0x85 || n = 0xA0 || n = 0x1680 ||
    (0x2000 ≤ n && n ≤ 0x200A) || n = 0x2028 || n = 0x2029 || n = 0x202F || n = 0x205F || n = 0x3000

def dropBlank (chars : List Char) : List Char := chars.dropWhile isBlank

def trim (chars : List Char) : List Char := (dropBlank (dropBlank chars).reverse).reverse

end HostPorts.Text
