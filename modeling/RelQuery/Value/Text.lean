import RelQuery.Number.Layout
import RelQuery.Text.Quoted
import RelQuery.Value.Basic

/-! Written forms of values: the literal that a statement shows, the bare text that concatenation
uses, and the tagged form that messages show. -/
namespace RelQuery.Value

def hexByte (b : UInt8) : List Char :=
  [Text.hexDigit (b.toNat / 16), Text.hexDigit b.toNat]

/-- A quote inside a literal is written twice. -/
def quoteLiteral (s : String) : String :=
  String.ofList ('\'' :: (s.toList.flatMap fun c => if c = '\'' then ['\'', '\''] else [c]) ++ ['\''])

def literal : Value → String
  | null => "NULL"
  | boolean true => "TRUE"
  | boolean false => "FALSE"
  | int n => toString n.toInt
  | float x => x.text Binary64.plain
  | string s => quoteLiteral s
  | dateTime n => toString n.toInt
  | bytes bs => "X'" ++ String.ofList ((bs.flatMap hexByte).map Char.toUpper) ++ "'"

def text : Value → String
  | string s => s
  | v => v.literal

def listText (items : List String) : String := "[" ++ ", ".intercalate items ++ "]"

def tagged : Value → String
  | null => "Null"
  | boolean true => "Boolean(true)"
  | boolean false => "Boolean(false)"
  | int n => "Int64(" ++ toString n.toInt ++ ")"
  | float x => "Float64(" ++ x.text Binary64.marked ++ ")"
  | string s => "String(" ++ Text.quoted s ++ ")"
  | dateTime n => "DateTime(" ++ toString n.toInt ++ ")"
  | bytes bs => "Bytes(" ++ listText (bs.map fun b => toString b.toNat) ++ ")"

def taggedList (vs : List Value) : String := listText (vs.map tagged)

end RelQuery.Value
