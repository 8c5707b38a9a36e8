import RowPolicy.Json.Basic

/-!
# Requests

What a policy is evaluated against: the attributes of the principal who asks, and the fields of
the record asked for. Both are maps from names to JSON values.
-/

namespace RowPolicy

structure Principal where
  attributes : Dict Json

structure Record where
  fields : Dict Json

namespace Principal

def anonymous : Principal := ⟨Dict.empty⟩

def get? (principal : Principal) (name : String) : Option Json :=
  principal.attributes.get? name

def withAttribute (principal : Principal) (name : String) (value : Json) : Principal :=
  ⟨principal.attributes.insert name value⟩

/-- The principal of a list of attributes; of repeated names the last one wins. -/
def ofList (attributes : List (String × Json)) : Principal := ⟨Dict.ofList attributes⟩

def ofJson? (json : Json) : Option Principal := json.members?.map ofList

def toJson (principal : Principal) : Json := Json.ofDict principal.attributes

def same (a b : Principal) : Bool := a.toJson.same b.toJson

end Principal

namespace Record

def empty : Record := ⟨Dict.empty⟩

def get? (record : Record) (field : String) : Option Json :=
  record.fields.get? field

def withField (record : Record) (name : String) (value : Json) : Record :=
  ⟨record.fields.insert name value⟩

def ofList (fields : List (String × Json)) : Record := ⟨Dict.ofList fields⟩

def ofJson? (json : Json) : Option Record := json.members?.map ofList

def toJson (record : Record) : Json := Json.ofDict record.fields

def same (a b : Record) : Bool := a.toJson.same b.toJson

end Record

end RowPolicy
