import Stencil.Pattern.CharSet
import Stencil.Pattern.Table.Break
import Stencil.Pattern.Table.Category
import Stencil.Pattern.Table.Trait
set_option autoImplicit false

namespace Stencil.CharSet

def row? (table : List (String × String)) (name : String) : Option (String × String) :=
  table.find? fun e => (Text.words e.1).contains name

def lookup? (table : List (String × String)) (name : String) : Option CharSet :=
  (row? table name).map fun e => read e.2

def collect (table : List (String × String)) (names : List String) : CharSet :=
  unions (names.filterMap (lookup? table))

def category (names : List String) : CharSet := collect Pattern.Table.categories names

/-- Code points of no category. Surrogates are no characters, and so they count as assigned. -/
def unassigned : CharSet :=
  (unions (⟨#[(0xd800, 0xdfff)]⟩ :: Pattern.Table.categories.map fun e => read e.2)).compl

def trait (names : List String) : CharSet := collect Pattern.Table.traits names

def lowercase : CharSet := (category ["ll"]).union (trait ["olower"])

def uppercase : CharSet := (category ["lu"]).union (trait ["oupper"])

def cased : CharSet := unions [lowercase, uppercase, category ["lt"]]

def alphabetic : CharSet :=
  unions [lowercase, uppercase, category ["lt", "lm", "lo", "nl"], trait ["oalpha"]]

def math : CharSet := (category ["sm"]).union (trait ["omath"])

def graphemeExtend : CharSet := (category ["mn", "me"]).union (trait ["ogrext"])

def graphemeBase : CharSet :=
  (unions [category ["cc", "cf", "co", "zl", "zp"], unassigned, graphemeExtend]).compl

def idStart : CharSet :=
  ((category ["lu", "ll", "lt", "lm", "lo", "nl"]).union (trait ["oids"])).diff (trait ["patsyn", "patws"])

def idContinue : CharSet :=
  (unions [idStart, category ["mn", "mc", "nd", "pc"], trait ["oidc"]]).diff (trait ["patsyn", "patws"])

/-- Code points that may not stand in a name because their compatibility forms may not. -/
def unstableNames : CharSet :=
  ⟨#[(0x37a, 0x37a), (0x309b, 0x309c), (0xfc5e, 0xfc63), (0xfdfa, 0xfdfb), (0xfe70, 0xfe70),
    (0xfe72, 0xfe72), (0xfe74, 0xfe74), (0xfe76, 0xfe76), (0xfe78, 0xfe78), (0xfe7a, 0xfe7a),
    (0xfe7c, 0xfe7c), (0xfe7e, 0xfe7e)]⟩

def xidStart : CharSet :=
  idStart.diff (unstableNames.union ⟨#[(0xe33, 0xe33), (0xeb3, 0xeb3), (0xff9e, 0xff9f)]⟩)

def xidContinue : CharSet := idContinue.diff unstableNames

def caseIgnorable : CharSet :=
  (category ["mn", "me", "cf", "lm", "sk"]).union
    (collect Pattern.Table.wordBreaks ["midletter", "midnumlet", "singlequote"])

def defaultIgnorable : CharSet :=
  (unions [category ["cf"], trait ["odi", "vs"]]).diff
    (unions [trait ["wspace", "pcm"], ⟨#[(0xfff9, 0xfffb), (0x13430, 0x1345f)]⟩])

def derived? : String → Option CharSet
  | "lowercase" | "lower" => some lowercase
  | "uppercase" | "upper" => some uppercase
  | "cased" => some cased
  | "alphabetic" | "alpha" => some alphabetic
  | "math" => some math
  | "graphemeextend" | "grext" => some graphemeExtend
  | "graphemebase" | "grbase" => some graphemeBase
  | "idstart" | "ids" => some idStart
  | "idcontinue" | "idc" => some idContinue
  | "xidstart" | "xids" => some xidStart
  | "xidcontinue" | "xidc" => some xidContinue
  | "caseignorable" | "ci" => some caseIgnorable
  | "defaultignorablecodepoint" | "di" => some defaultIgnorable
  | "changeswhencasemapped" | "cwcm" => some (trait ["cwl", "cwt", "cwu"])
  | _ => Option.none

end Stencil.CharSet
