import Hypershunt.Http.Header

/-!
# Header rules

The `set`, `add` and `remove` operations of a location (`headers.rs`), over templates of type `T`
that render to text. A value that renders to nothing, or to something that cannot be a header
value, is skipped.
-/

namespace Hypershunt

inductive HeaderOp (T : Type*)
  | set (name : HeaderName) (template : T)
  | add (name : HeaderName) (template : T)
  | remove (name : HeaderName)

structure HeaderRules (T : Type*) where
  request : List (HeaderOp T)
  response : List (HeaderOp T)
  /-- Some template reads the identity. -/
  needsPrincipal : Bool

variable {T : Type*}

/-- The value a template gives, unless the operation is to be skipped. -/
def HeaderOp.value (render : T → String) (template : T) : Option HeaderValue :=
  let rendered := render template
  if rendered.isEmpty then none else HeaderValue.fromStr rendered

def HeaderOp.apply (render : T → String) (headers : HeaderMap) : HeaderOp T → HeaderMap
  | .set name template => match HeaderOp.value render template with
    | some v => headers.insert name v
    | none => headers
  | .add name template => match HeaderOp.value render template with
    | some v => headers.append name v
    | none => headers
  | .remove name => headers.remove name

/-- Apply rules in declaration order. -/
def applyHeaders (render : T → String) (ops : List (HeaderOp T)) (headers : HeaderMap) :
    HeaderMap :=
  ops.foldl (HeaderOp.apply render) headers

end Hypershunt
