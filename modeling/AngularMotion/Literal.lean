import AngularMotion.Number.Quantity
import AngularMotion.Text.Quoted

/-!
# Plain values

A value as it is written in a request, before anything is made of it. Messages show it in its
written form.
-/

namespace AngularMotion

inductive Literal where
  | null
  | quantity (q : Quantity)
  | text (s : String)
  | list (items : List Literal)
  | record (fields : List (String × Literal))

namespace Literal

mutual

/-- The written form: texts are quoted, lists and records bracketed. -/
def shown : Literal → String
  | null => "None"
  | quantity q => q.text
  | text s => Text.quoted s
  | list items => "[" ++ ", ".intercalate (shownItems items) ++ "]"
  | record fields => "\x7b" ++ ", ".intercalate (shownFields fields) ++ "\x7d"

def shownItems : List Literal → List String
  | [] => []
  | item :: rest => shown item :: shownItems rest

def shownFields : List (String × Literal) → List String
  | [] => []
  | (name, value) :: rest => (Text.quoted name ++ ": " ++ shown value) :: shownFields rest

end

/-- The written form, with a text as it is. -/
def plain : Literal → String
  | text s => s
  | value => value.shown

/-- The word for the kind of a value in messages. -/
def kindName : Literal → String
  | null => "NoneType"
  | quantity q => q.kindName
  | text _ => "str"
  | list _ => "list"
  | record _ => "dict"

end Literal

end AngularMotion
