/-!
# Programs and scopes

A program is named by its namespace, its application, its type and its own name (`ProgramId`). Six
types of program exist (`ProgramType`), each with a lower-case name, which is read in any case of
its ASCII letters (`ProgramType.ofName?_name`), and a code byte (`ProgramType.ofCode?_code`).
Programs are ordered by their components in that order, types by code. A `Scope` is a whole
namespace or one application in it.
-/

set_option autoImplicit false

namespace RunLedger

open Std (TransOrd TransCmp)

/-- The kinds of program that run. -/
inductive ProgramType where
  | flow
  | mapreduce
  | spark
  | workflow
  | service
  | worker
deriving DecidableEq, Inhabited

namespace ProgramType

/-- All types, in the order of their codes. -/
def all : List ProgramType := [flow, mapreduce, spark, workflow, service, worker]

/-- The byte that stands for a type inside keys. -/
def code : ProgramType → UInt8
  | flow => 1
  | mapreduce => 2
  | spark => 3
  | workflow => 4
  | service => 5
  | worker => 6

/-- The type with a given code. -/
def ofCode? (byte : UInt8) : Option ProgramType := all.find? fun type ↦ type.code = byte

/-- The lower-case name of a type. -/
def name : ProgramType → String
  | flow => "flow"
  | mapreduce => "mapreduce"
  | spark => "spark"
  | workflow => "workflow"
  | service => "service"
  | worker => "worker"

instance : ToString ProgramType := ⟨name⟩

/-- The type with a given name, in any case of the ASCII letters. -/
def ofName? (text : String) : Option ProgramType := all.find? fun type ↦ type.name = text.toLower

theorem ofCode?_code (type : ProgramType) : ofCode? type.code = some type := by
  cases type <;> rfl

theorem eq_of_ofCode? {byte : UInt8} {type : ProgramType} (hcode : ofCode? byte = some type) :
    type.code = byte := by
  simpa using List.find?_some hcode

theorem ofName?_name (type : ProgramType) : ofName? type.name = some type := by
  cases type <;> decide +kernel

end ProgramType

/-- A program: who owns it, where it is deployed, of what type it is and what it is called. -/
structure ProgramId where
  namespaceName : String
  application : String
  type : ProgramType
  name : String
deriving DecidableEq, Inhabited

namespace ProgramId

/-- The four components joined by points. -/
def text (program : ProgramId) : String :=
  program.namespaceName ++ "." ++ program.application ++ "." ++ program.type.name ++ "." ++
    program.name

instance : ToString ProgramId := ⟨text⟩

/-- Another program of the same application. -/
def sibling (program : ProgramId) (type : ProgramType) (name : String) : ProgramId :=
  { program with type, name }

/-- By namespace, application, type code and name. -/
instance : Ord ProgramId :=
  ⟨compareLex (compareOn ProgramId.namespaceName) (compareLex (compareOn ProgramId.application)
    (compareLex (compareOn fun program ↦ program.type.code) (compareOn ProgramId.name)))⟩

instance : TransOrd ProgramId :=
  inferInstanceAs (TransCmp (compareLex (compareOn ProgramId.namespaceName)
    (compareLex (compareOn ProgramId.application)
      (compareLex (compareOn fun program : ProgramId ↦ program.type.code)
        (compareOn ProgramId.name)))))

end ProgramId

/-- What a bulk removal covers: a whole namespace or one application in it. -/
inductive Scope where
  | wholeNamespace (namespaceName : String)
  | oneApplication (namespaceName application : String)
deriving DecidableEq, Inhabited

namespace Scope

/-- Whether a program lies in the scope. -/
def contains : Scope → ProgramId → Bool
  | wholeNamespace namespaceName, program => program.namespaceName = namespaceName
  | oneApplication namespaceName application, program =>
    program.namespaceName = namespaceName && program.application = application

/-- The named components joined by a point. -/
def text : Scope → String
  | wholeNamespace namespaceName => namespaceName
  | oneApplication namespaceName application => namespaceName ++ "." ++ application

instance : ToString Scope := ⟨text⟩

end Scope

end RunLedger
