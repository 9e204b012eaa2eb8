/-
What can go wrong between a document and its model.

An error is a cause with the data that names it; the wording is in `BuildError.message` alone. One
cause is local to a single declaration (`BuildError.endsRun`): the assembler leaves that declaration
out and goes on, every other cause ends the run.

A run may also come to nothing without an answer (`Halt`). Then nothing more happens: no model, no error
that could be reported, no dump. A halt is passed on like an error that ends the run, and whoever would
do something about an error must ask first whether it is one.
-/

namespace HeaderModel

/-- why a text is not a document -/
inductive DocumentFault where
  | unreadable
  | unexpectedRoot (tag : String)
  | duplicateId (id : String)
  | noRoot
  deriving DecidableEq, Repr

/-- the wording of a fault; a fault of the markup itself has none -/
def DocumentFault.detail : DocumentFault → Option String
  | .unreadable => none
  | .unexpectedRoot tag => some ("unexpected root element <" ++ tag ++ ">")
  | .duplicateId id => some ("duplicate element id " ++ id)
  | .noRoot => some "document has no root element"

/-- why a run gives no answer: a number of slots does not fit in 32 bits, which stops the program, or a
chain of types is followed forever -/
inductive Halt where
  | overflow
  | endless
  deriving DecidableEq, Repr

/-- why no model can be built -/
inductive BuildError where
  | malformed (fault : DocumentFault)
  | wrongKind (kind id : String)
  | unknownId (id : String)
  | noAttribute (attr id : String)
  | badNumber (attr value id : String)
  | cycle (id name : String)
  | halted (why : Halt)
  deriving DecidableEq, Repr

/-- the wording of an error; a fault of the markup itself has none, and neither has a halt -/
def BuildError.message : BuildError → Option String
  | .malformed fault => fault.detail.map ("malformed AST document: " ++ ·)
  | .wrongKind kind id => some ("unexpected element kind [" ++ kind ++ "] for element " ++ id)
  | .unknownId id => some ("element id " ++ id ++ " is not defined in the document")
  | .noAttribute attr id =>
    some ("element " ++ id ++ " is missing required attribute `" ++ attr ++ "`")
  | .badNumber attr value id =>
    some ("invalid numeric literal `" ++ value ++ "` in attribute `" ++ attr ++ "` of element " ++ id)
  | .cycle id name => some ("cyclic reference through element " ++ id ++ " (" ++ name ++ ")")
  | .halted _ => none

/-- whether an error ends the run; only a bad number is local to its declaration -/
def BuildError.endsRun : BuildError → Bool
  | .badNumber .. => false
  | _ => true

end HeaderModel
