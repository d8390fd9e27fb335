import EditMining.Configuration.Reading
import EditMining.Decimal.Real
import EditMining.Yaml.Parser

/-!
# Configurations in YAML

In YAML the type of a setting follows from its place: a text may be written as
any scalar, while a count, a share or a truth value has to be a plain one of the
right form. A section or a list with nothing written in it is empty.
-/

namespace EditMining.Yaml

/-- Nothing is written. -/
def isBlank : Yaml → Bool
  | .scalar text isPlain => isPlain && text == ""
  | _ => false

/-- The text of a scalar. -/
def text? : Yaml → Option String
  | .scalar text _ => some text
  | _ => none

/-- The text of a plain scalar. -/
def plainText? : Yaml → Option String
  | .scalar text true => some text
  | _ => none

/-- Nothing is written, or null. -/
def isNull (v : Yaml) : Bool :=
  (plainText? v).any fun t => ["", "~", "null", "Null", "NULL"].contains t

def readFlag (text : String) : Option Bool :=
  if ["true", "True", "TRUE"].contains text then some true
  else if ["false", "False", "FALSE"].contains text then some false
  else none

/-- The digits of a base. -/
def digitValue? (base : Nat) (c : Char) : Option Nat :=
  (hexDigit? c).filter fun d => decide (d < base)

/-- A count in some base, below the word limit. -/
def readBased (base : Nat) (ds : List Char) : Option Nat := do
  if ds.isEmpty then none
  else
    let values ← ds.mapM (digitValue? base)
    let n := values.foldl (fun n d => n * base + d) 0
    if n < Decimal.wordLimit then some n else none

/-- Whether a numeral has a needless zero in front. -/
def hasLeadingZero (text : List Char) : Bool :=
  let ds := (Decimal.takeSign text).2
  1 < ds.length && ds.head? == some '0' && ds.all (·.isDigit)

/-- A count: decimal without needless zeros, or marked as of another base. -/
def readCount (text : List Char) : Option Nat :=
  let unsigned := match text with
    | '+' :: rest => rest
    | text => text
  match unsigned with
  | '0' :: 'x' :: ds => readBased 16 ds
  | '0' :: 'o' :: ds => readBased 8 ds
  | '0' :: 'b' :: ds => readBased 2 ds
  | ds => if hasLeadingZero text then none else Decimal.readNumeral ds

/-- Values that are no numbers have names of their own. -/
def readNamed (text : List Char) : Option Float :=
  let unsigned := match text with
    | '+' :: rest => rest
    | text => text
  if [".inf", ".Inf", ".INF"].contains (String.ofList unsigned) then some (1.0 / 0.0)
  else if ["-.inf", "-.Inf", "-.INF"].contains (String.ofList text) then some (-1.0 / 0.0)
  else if [".nan", ".NaN", ".NAN"].contains (String.ofList text) then some (0.0 / 0.0)
  else none

def readShare (text : List Char) : Option Float :=
  match readNamed text with
  | some x => some x
  | none => (Decimal.readReal text).filter (·.isFinite)

/-- The one value under a name, none where the name is not there, and a failure
where it is there several times. -/
def memberFor (members : List (String × Yaml)) (name : String) : Option (Option Yaml) :=
  match members.filter fun member => member.1 == name with
  | [] => some none
  | [member] => some (some member.2)
  | _ => none

/-- A mapping whose keys are all scalars, by their texts. -/
def members? : Yaml → Option (List (String × Yaml))
  | .mapping members => members.mapM fun (key, v) => (text? key).map fun name => (name, v)
  | v => if isBlank v then some [] else none

def list? : Yaml → Option (List Yaml)
  | .sequence items => some items
  | v => if isBlank v then some [] else none

end EditMining.Yaml

namespace EditMining

/-- Settings in YAML. -/
def SettingsView.yaml : SettingsView Yaml where
  members names v := (Yaml.members? v).bind fun members => names.mapM (Yaml.memberFor members)
  isMissing := Yaml.isNull
  text? := Yaml.text?
  flag? v := (Yaml.plainText? v).bind Yaml.readFlag
  count? v := (Yaml.plainText? v).bind fun t => Yaml.readCount t.toList
  share? v := (Yaml.plainText? v).bind fun t => Yaml.readShare t.toList
  choice? := Yaml.text?
  list? := Yaml.list?

/-- Read a configuration written in YAML. -/
def Configuration.parseYaml (text : String) : Result Configuration :=
  match (Yaml.parse text).bind (SettingsView.yaml.configuration? .default) with
  | some c => .ok c
  | none => .error (.serialization .yaml)

end EditMining
