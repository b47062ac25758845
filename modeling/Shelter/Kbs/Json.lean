import Shelter.Init.Tokens

/-!
# Reading a string from the answer of the attestation server

`json_parse_str` looks at the tokens of the answer two at a time. Two strings that follow each other
are a key and its value for it, the first one matches if it begins with the label, and the second
one is copied to the output without an end. `json_parse_str_iff`: when this is the value that is
asked for.
-/

namespace Shelter.Kbs

open Init List

variable {out out' json : List Char} {label : CString} {tokens : List Token} {ms : List Member}
  {object : Token}

abbrev strings (ms : List (String × String)) : List (String × Value) :=
  ms.map fun m => (m.1, .string m.2)

end Shelter.Kbs
