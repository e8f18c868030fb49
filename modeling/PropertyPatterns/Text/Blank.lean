namespace PropertyPatterns

def isBlank (c : Char) : Bool :=
  let n := c.toNat
  (0x09 ≤ n && n ≤ 0x0d) || n = 0x20 || n = 0x85 || n = 0xa0 || n = 0x1680 ||
    (0x2000 ≤ n && n ≤ 0x200a) || n = 0x2028 || n = 0x2029 || n = 0x202f || n = 0x205f ||
    n = 0x3000

/-- Each run of blanks as one space. A run at the start is left out if a blank came before. -/
def collapseBlanks (afterBlank : Bool) : List Char → List Char
  | [] => []
  | c :: cs =>
    if isBlank c then
      if afterBlank then collapseBlanks true cs else ' ' :: collapseBlanks true cs
    else c :: collapseBlanks false cs

end PropertyPatterns
