import Mathlib.Data.Rat.Floor

/-! The JSON values of `nlohmann::json` as far as the program reads them. The
typed accessors return `none` where the library throws: `get` on a value of
another type, `value` on anything but an object. Only `json::parse` itself is
left out; a received text enters the model as the value it parses to. -/

namespace ConferenceCall

/-- A JSON value. The keys of an object are unique, as in the library's map. -/
inductive Json where
  | null
  | boolean (b : Bool)
  | number (n : ℤ)
  | float (q : ℚ)
  | string (s : String)
  | array (items : List Json)
  | object (fields : List (String × Json))

namespace Json

/-- `find(key)`; only an object has keys. -/
def find? : Json → String → Option Json
  | object fields, key => fields.lookup key
  | _, _ => none

def contains (j : Json) (key : String) : Bool := (j.find? key).isSome

/-- `get<std::string>()`. -/
def asString : Json → Option String
  | string s => some s
  | _ => none

/-- `get<int>()`: any arithmetic value, cast to 32 bits. -/
def asInt : Json → Option ℤ
  | number n => some (n.bmod (2 ^ 32))
  | float q => some ((q.num.tdiv q.den).bmod (2 ^ 32))
  | boolean b => some (if b then 1 else 0)
  | _ => none

/-- `value(key, default)`. -/
def value {α : Type} (j : Json) (key : String) (get : Json → Option α) (default : α) : Option α :=
  match j with
  | object fields => match fields.lookup key with
    | some v => get v
    | none => some default
  | _ => none

/-- What a range-based for over the value visits. -/
def items : Json → List Json
  | null => []
  | array l => l
  | object fields => fields.map Prod.snd
  | j => [j]

end Json

end ConferenceCall
