import Stencil.Pattern.Category
import Stencil.Pattern.Table.Age
import Stencil.Pattern.Table.Script
set_option autoImplicit false

namespace Stencil.CharSet

def digits : CharSet := category ["nd"]

def blanks : CharSet := trait ["wspace"]

def wordChars : CharSet :=
  unions [alphabetic, category ["mn", "mc", "me", "nd", "pc"], trait ["joinc"]]

def narrowDigits : CharSet := range '0' '9'

def narrowBlanks : CharSet := ⟨#[(0x9, 0xd), (0x20, 0x20)]⟩

def narrowWordChars : CharSet := ofPairs [('0', '9'), ('A', 'Z'), ('_', '_'), ('a', 'z')]

def ascii : CharSet := ⟨#[(0, 0x7f)]⟩

/-- The class of a bracketed name such as `alpha`; all of them are ASCII. -/
def bracketed? : String → Option CharSet
  | "alnum" => some (ofPairs [('0', '9'), ('A', 'Z'), ('a', 'z')])
  | "alpha" => some (ofPairs [('A', 'Z'), ('a', 'z')])
  | "ascii" => some ascii
  | "blank" => some (ofPairs [('\t', '\t'), (' ', ' ')])
  | "cntrl" => some ⟨#[(0, 0x1f), (0x7f, 0x7f)]⟩
  | "digit" => some narrowDigits
  | "graph" => some (range '!' '~')
  | "lower" => some (range 'a' 'z')
  | "print" => some (range ' ' '~')
  | "punct" => some (ofPairs [('!', '/'), (':', '@'), ('[', '\x60'), ('\x7b', '~')])
  | "space" => some narrowBlanks
  | "upper" => some (range 'A' 'Z')
  | "word" => some narrowWordChars
  | "xdigit" => some (ofPairs [('0', '9'), ('A', 'F'), ('a', 'f')])
  | _ => Option.none

/-- Names are compared without case, blanks, hyphens and underscores, and without a leading `is`. -/
def normalName (name : String) : String :=
  let cs := name.toList
  let stripped := match cs with
    | i :: s :: rest => if i.toLower = 'i' && s.toLower = 's' then rest else cs
    | _ => cs
  let plain (cs : List Char) : List Char :=
    (cs.filter fun c => c.toNat < 128 && c ≠ ' ' && c ≠ '-' && c ≠ '_').map Char.toLower
  let out := plain stripped
  if stripped.length < cs.length && out == ['c'] then "isc" else String.ofList out

def categoryNames : List (String × List String) :=
  [("uppercaseletter", ["lu"]), ("lowercaseletter", ["ll"]), ("titlecaseletter", ["lt"]),
    ("modifierletter", ["lm"]), ("otherletter", ["lo"]),
    ("lc casedletter", ["lu", "ll", "lt"]), ("l letter", ["lu", "ll", "lt", "lm", "lo"]),
    ("nonspacingmark", ["mn"]), ("spacingmark", ["mc"]), ("enclosingmark", ["me"]),
    ("m mark combiningmark", ["mn", "mc", "me"]),
    ("decimalnumber digit", ["nd"]), ("letternumber", ["nl"]), ("othernumber", ["no"]),
    ("n number", ["nd", "nl", "no"]),
    ("connectorpunctuation", ["pc"]), ("dashpunctuation", ["pd"]), ("openpunctuation", ["ps"]),
    ("closepunctuation", ["pe"]), ("initialpunctuation", ["pi"]), ("finalpunctuation", ["pf"]),
    ("otherpunctuation", ["po"]), ("p punctuation punct", ["pc", "pd", "ps", "pe", "pi", "pf", "po"]),
    ("mathsymbol", ["sm"]), ("currencysymbol", ["sc"]), ("modifiersymbol", ["sk"]), ("othersymbol", ["so"]),
    ("s symbol", ["sm", "sc", "sk", "so"]),
    ("spaceseparator", ["zs"]), ("lineseparator", ["zl"]), ("paragraphseparator", ["zp"]),
    ("z separator", ["zs", "zl", "zp"]),
    ("control cntrl", ["cc"]), ("format", ["cf"]), ("privateuse", ["co"])]

def category? (name : String) : Option CharSet :=
  match name with
  | "any" => some full
  | "assigned" => some unassigned.compl
  | "ascii" => some ascii
  | "cn" | "unassigned" => some unassigned
  | "c" | "other" => some (unassigned.union (category ["cc", "cf", "co"]))
  | _ =>
    match categoryNames.find? fun e => (Text.words e.1).contains name with
    | some e => some (category e.2)
    | Option.none => lookup? Pattern.Table.categories name

def script? (name : String) : Option CharSet := lookup? Pattern.Table.scripts name

/-- Code points a script uses: its own that no list of sharing scripts mentions, and those it shares. -/
def scriptUse? (name : String) : Option CharSet := do
  let e ← row? Pattern.Table.scripts name
  let code ← (Text.words e.1).getLast?
  let shared := Pattern.Table.sharedScripts
  let used := shared.filter fun s => (Text.words s.1).contains code
  return ((read e.2).diff (unions (shared.map fun s => read s.2))).union (unions (used.map fun s => read s.2))

/-- Code points that a version of the character set and those before it added. -/
def age? (name : String) : Option CharSet :=
  let named (e : String × String) : Bool := (Text.words e.1).contains name
  if Pattern.Table.ages.any named then
    let earlier := Pattern.Table.ages.takeWhile fun e => !named e
    (lookup? Pattern.Table.ages name).map fun s => s.union (unions (earlier.map fun e => read e.2))
  else Option.none

def trait? (name : String) : Option CharSet := derived? name <|> lookup? Pattern.Table.traits name

/-- The set a single property name stands for: a property, else a category, else a script. -/
def named? (name : String) : Option CharSet :=
  let n := normalName name
  trait? n <|> category? n <|> script? n

def graphemeBreak? : String → Option CharSet
  | "extend" | "ex" => some (graphemeExtend.union (trait ["emod"]))
  | name => lookup? Pattern.Table.graphemeBreaks name

def wordBreak? : String → Option CharSet
  | "extend" => some (unions [graphemeExtend, category ["mc"], trait ["emod"]])
  | name => lookup? Pattern.Table.wordBreaks name

def sentenceExtend : CharSet := unions [graphemeExtend, category ["mc"], ⟨#[(0x200d, 0x200d)]⟩]

def sentenceLower : CharSet := lowercase.diff (graphemeExtend.union ⟨#[(0x10d0, 0x10fa), (0x10fd, 0x10ff)]⟩)

def sentenceUpper : CharSet := (uppercase.union (category ["lt"])).diff ⟨#[(0x1c90, 0x1cba), (0x1cbd, 0x1cbf)]⟩

def sentenceBreak? : String → Option CharSet
  | "extend" | "ex" => some sentenceExtend
  | "lower" | "lo" => some sentenceLower
  | "upper" | "up" => some sentenceUpper
  | "oletter" | "le" =>
    some ((alphabetic.diff (unions [sentenceLower, sentenceUpper, sentenceExtend])).union ⟨#[(0x5f3, 0x5f3)]⟩)
  | "numeric" | "nu" => some ((collect Pattern.Table.wordBreaks ["numeric"]).union ⟨#[(0x66c, 0x66c)]⟩)
  | name => lookup? Pattern.Table.sentenceBreaks name

def valued? (property value : String) : Option CharSet :=
  let v := normalName value
  match normalName property with
  | "generalcategory" | "gc" => category? v
  | "script" | "sc" => script? v
  | "scriptextensions" | "scx" => scriptUse? v
  | "age" => age? v
  | "graphemeclusterbreak" | "gcb" => graphemeBreak? v
  | "wordbreak" | "wb" => wordBreak? v
  | "sentencebreak" | "sb" => sentenceBreak? v
  | _ => Option.none

end Stencil.CharSet
