import GrammarCompiler.Failure

/-!
# Grammar declarations

A declaration names a grammar and gives the types of its input and its
results, either directly or through a generic base.
-/

namespace GrammarCompiler

/-- The resolved naming and typing of one grammar. -/
structure Declaration where
  /-- The name of the grammar. -/
  name : String
  inputType : String
  resultType : String
  /-- The class from which the generated class is derived. -/
  baseClass : String
  deriving DecidableEq, Inhabited

namespace Declaration

/-- The base of a grammar that names none. -/
def defaultBase : String := "IronMeta.Matcher"

/-- The name of the generated class. -/
def className (declaration : Declaration) : String :=
  declaration.name ++ "Matcher"

/-- The name of the generated class for matched items. -/
def itemClass (declaration : Declaration) : String :=
  declaration.className ++ "Item"

/-- The name that a node spells and, if it is a generic name with exactly two
parameters, the input and result types. -/
def nameAndTypes (source : String) :
    Node → Except Failure (String × Option (String × String))
  | .genericName _ name [input, result] => do
      let inputType ← input.tag.readTrimmed source
      let resultType ← result.tag.readTrimmed source
      return (← name.tag.readTrimmed source, some (inputType, resultType))
  | .genericName _ name _ => do return (← name.tag.readTrimmed source, none)
  | node => do return (← node.tag.readTrimmed source, none)

/-- The types of a declaration: its own, else those of its base. -/
def typesOf (source : String) (own? : Option (String × String)) (base? : Option Node) :
    Except Failure (Option (String × String)) :=
  match own?, base? with
  | some types, _ => .ok (some types)
  | none, some base => (nameAndTypes source base).map (·.2)
  | none, none => .ok none

/-- The base class: the base as it is written, else the default with the
types of the grammar. -/
def baseOf (source inputType resultType : String) : Option Node → Except Failure String
  | some base => base.tag.readTrimmed source
  | none => .ok (defaultBase ++ "<" ++ inputType ++ ", " ++ resultType ++ ">")

/-- Read a declaration. -/
def ofNode (source : String) : Node → Except Failure Declaration
  | .declaration tag nameNode base? => do
      let (name, own?) ← nameAndTypes source nameNode
      match ← typesOf source own? base? with
      | some (inputType, resultType) =>
          return { name, inputType, resultType
                   baseClass := ← baseOf source inputType resultType base? }
      | none => throw (.violation (.untyped name) tag.span)
  | node => .error (.violation (.notDeclaration node.kind) node.span)

end Declaration
end GrammarCompiler
