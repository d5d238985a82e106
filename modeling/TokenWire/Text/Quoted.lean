/-! Texts as they are quoted inside messages. -/

namespace TokenWire.Quoted

/-- The quote around a text: double only if the text holds a single quote and no double one. -/
def mark (cs : List Char) : Char :=
  if cs.contains '\'' && !cs.contains '"' then '"' else '\''

def hexDigit (n : Nat) : Char :=
  "0123456789abcdef".toList.getD n '0'

/-- A character inside quotes: the quote and the backslash are escaped, and so are controls. -/
def escape (quote c : Char) : List Char :=
  if c = quote ∨ c = '\\' then ['\\', c]
  else if c = '\t' then ['\\', 't']
  else if c = '\n' then ['\\', 'n']
  else if c = '\r' then ['\\', 'r']
  else if c.toNat < 32 ∨ c.toNat = 127 then
    ['\\', 'x', hexDigit (c.toNat / 16), hexDigit (c.toNat % 16)]
  else [c]

def encode (s : String) : String :=
  let quote := mark s.toList
  String.ofList (quote :: s.toList.flatMap (escape quote) ++ [quote])

end TokenWire.Quoted
