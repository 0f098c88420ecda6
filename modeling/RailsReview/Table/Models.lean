import RailsReview.Dictionary
import RailsReview.Inflection.ClassName

/-!
# Associations and attributes of models
-/
namespace RailsReview

/-- The declarations by which a model belongs to or has one other record. -/
def singularAssociations : List String :=
  ["belongs_to", "has_one", "embeds_one", "embedded_in", "one"]

def collectionAssociations : List String :=
  ["has_many", "has_and_belongs_to_many", "embeds_many", "references_many", "many"]

structure Association where
  kind : String
  className : String
  deriving DecidableEq, Repr

structure AssociationTable where
  associations : Dictionary (Dictionary Association) := {}
  deriving DecidableEq, Repr

namespace AssociationTable

/-- The class an association leads to: the one that is named, or that of the association's name. -/
def targetClass (name : String) (className : Option String) : String :=
  match className.filter (· ≠ "") with
  | some c => Text.withoutRoot c
  | none => Inflection.classify name

/-- The last declaration of an association counts. -/
def add (t : AssociationTable) (model name kind : String) (className : Option String) :
    AssociationTable :=
  ⟨t.associations.alter model fun d =>
    (d.getD {}).insert name ⟨kind, targetClass name className⟩⟩

def ofModel? (t : AssociationTable) (model : String) : Option (Dictionary Association) :=
  t.associations.get? model

/-- The association of that name, if it is of one of the kinds; no kinds admit all. -/
def find? (t : AssociationTable) (model name : String) (kinds : List String) :
    Option Association :=
  ((t.ofModel? model).bind (·.get? name)).filter fun a => kinds.isEmpty || kinds.contains a.kind

def isAssociation (t : AssociationTable) (model name : String) : Bool :=
  (t.find? model name []).isSome

def isSingular (t : AssociationTable) (model name : String) : Bool :=
  (t.find? model name singularAssociations).isSome

def isCollection (t : AssociationTable) (model name : String) : Bool :=
  (t.find? model name collectionAssociations).isSome

def classNameOf? (t : AssociationTable) (model name : String) : Option String :=
  (t.find? model name []).map (·.className)

end AssociationTable

/-- The type of each attribute of each model. -/
structure AttributeTable where
  attributes : Dictionary (Dictionary String) := {}
  deriving DecidableEq, Repr

namespace AttributeTable

def add (t : AttributeTable) (model name type : String) : AttributeTable :=
  ⟨t.attributes.alter model fun d => (d.getD {}).insert name type⟩

def typeOf? (t : AttributeTable) (model name : String) : Option String :=
  (t.attributes.get? model).bind (·.get? name)

def isAttribute (t : AttributeTable) (model name : String) : Bool := (t.typeOf? model name).isSome

end AttributeTable

end RailsReview
