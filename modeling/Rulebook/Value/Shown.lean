import Rulebook.Value.Basic
import Rulebook.Text.Quoted

/-!
Values as text. `shown` is the form that messages quote, which tells a text from a number and a
list from a tuple; `plain` is the form that a value takes inside a sentence, where a text stands
without quotation marks. Messages quote integers of any length: the limit on digits is one of codecs.
-/

namespace Rulebook.Value

mutual

/-- A value as messages quote it. -/
def shown : Value → List Char
  | null => "None".toList
  | bool b => if b then "True".toList else "False".toList
  | int n => integerText n
  | float x => x.text
  | str s => Text.quoted s.toList
  | bytes octets => Text.quotedOctets octets
  | list items => '[' :: shownItems items ++ [']']
  | tuple [item] => '(' :: shown item ++ [',', ')']
  | tuple items => '(' :: shownItems items ++ [')']
  | dict entries => '{' :: shownEntries entries ++ ['}']
  | set [] => "set()".toList
  | set members => '{' :: shownItems members ++ ['}']
  | timestamp t => t.shown
  | undefined => "Undefined".toList
  | node tag payload =>
    "Node(type=".toList ++ shown tag ++ ", payload=".toList ++ shown payload ++ [')']
  | rule ast => "Rule(".toList ++ shown ast ++ [')']
  | brokenRule text => "BrokenRule(".toList ++ Text.quoted text.toList ++ [')']
  | member value => "<Tag.MEMBER: ".toList ++ shown value ++ ['>']
  | constant text => "<Tag.MEMBER: ".toList ++ Text.quoted text.toList ++ ['>']
  | inert => "Opaque()".toList

/-- Items with commas between them. -/
def shownItems : List Value → List Char
  | [] => []
  | [item] => shown item
  | item :: rest => shown item ++ ',' :: ' ' :: shownItems rest

/-- Entries with commas between them. -/
def shownEntries : Entries → List Char
  | [] => []
  | [(key, value)] => shown key ++ ':' :: ' ' :: shown value
  | (key, value) :: rest =>
    shown key ++ ':' :: ' ' :: shown value ++ ',' :: ' ' :: shownEntries rest

end

/-- A value inside a sentence. -/
def plain : Value → List Char
  | str s => s.toList
  | timestamp t => t.text
  | member _ | constant _ => "Tag.MEMBER".toList
  | v => shown v

/-- A value as messages quote it. -/
def quoted (v : Value) : String := String.ofList v.shown

def sentence (v : Value) : String := String.ofList v.plain

end Rulebook.Value
