import WireSchema.Wire.Codec

namespace WireSchema

/-- An object after decoding into it, and the input that is left or the reason it failed. -/
structure Decoded where
  object : Object
  rest : Except CodecError Bytes

namespace Codec

variable (c : Codec)

def readScalar (t : Primitive) (bs : Bytes) : Except CodecError (Scalar × Bytes) :=
  let word := bs.take t.width
  if word.length < t.width then .error .endOfInput
  else .ok (Scalar.ofBytes c.endian t word, bs.drop t.width)

/-- Reads `count` values one after the other; `done` are those read before, last one first. -/
def readMany (read : Bytes → Except CodecError (Value × Bytes)) (done : List Value) :
    Nat → Bytes → Except CodecError (Value × Bytes)
  | 0, bs => .ok (.list done.reverse, bs)
  | count + 1, bs =>
    match read bs with
    | .error e => .error e
    | .ok (v, rest) => readMany read (v :: done) count rest

def readScalarValue (t : Primitive) (bs : Bytes) : Except CodecError (Value × Bytes) :=
  (c.readScalar t bs).map fun (s, rest) => (.scalar s, rest)

def readObject (decode : Object → Bytes → Decoded) (className : String) (bs : Bytes) :
    Except CodecError (Value × Bytes) := do
  let d := decode (← c.instantiate className) bs
  return (.object d.object, ← d.rest)

def elementCount (o : Object) (list : String) (count : CountSource) : Except CodecError Nat :=
  match (o.atDepth? count.depth).bind (·.own? count.field) with
  | none => .error (.missing o.className count.field)
  | some v =>
    match v.toCount? with
    | some n => .ok n
    | none => .error (.invalidCount o.className list v)

def put (o : Object) (field : String) (read : Except CodecError (Value × Bytes)) : Decoded :=
  match read with
  | .error e => ⟨o, .error e⟩
  | .ok (v, rest) =>
    match o.setOwn? field v with
    | some changed => ⟨changed, .ok rest⟩
    | none => ⟨o, .error (.missing o.className field)⟩

/-- A product of sizes, which are words of 64 bits. One that is too large for a word is taken as the
largest word. -/
def saturatingMul (a b : Nat) : Nat :=
  if a * b < Nat.pow 2 64 then a * b else Nat.pow 2 64 - 1

/-- Reads `n` scalars. Too large a number is refused before the first of them is read. -/
def readScalars (className field : String) (t : Primitive) (n : Nat) (bs : Bytes) :
    Except CodecError (Value × Bytes) :=
  if bs.length < saturatingMul n t.width then .error (.tooManyElements className field n)
  else readMany (c.readScalarValue t) [] n bs

def readScalarList (o : Object) (field : String) (t : Primitive) (count : CountSource)
    (bs : Bytes) : Except CodecError (Value × Bytes) := do
  c.readScalars o.className field t (← elementCount o field count) bs

def readObjectList (decode : Object → Bytes → Decoded) (o : Object) (field className : String)
    (count : CountSource) (bs : Bytes) : Except CodecError (Value × Bytes) := do
  let n ← elementCount o field count
  readMany (c.readObject decode className) [] n bs

def decodeField (decode : Object → Bytes → Decoded) (o : Object) (f : FieldPlan) (bs : Bytes) :
    Decoded :=
  match f.layout with
  | .scalar t | .lengthOf t _ => put o f.name (c.readScalarValue t bs)
  | .fixedScalars t length => put o f.name (readMany (c.readScalarValue t) [] length bs)
  | .fixedNested className length =>
    put o f.name (readMany (c.readObject decode className) [] length bs)
  | .scalarList t count => put o f.name (c.readScalarList o f.name t count bs)
  | .nestedList className count =>
    put o f.name (c.readObjectList decode o f.name className count bs)
  | .nested _ =>
    match o.own? f.name with
    | some (.object part) =>
      let d := decode part bs
      ⟨(o.setOwn? f.name (.object d.object)).getD o, d.rest⟩
    | _ => ⟨o, .error (.missing o.className f.name)⟩

def decodeStep (decode : Object → Bytes → Decoded) (o : Object) (step : WireStep) (bs : Bytes) :
    Decoded :=
  match step with
  | .parent _ =>
    match o.parent with
    | some part =>
      let d := decode part bs
      ⟨o.withParent d.object, d.rest⟩
    | none => ⟨o, .error (.missing o.className "parent")⟩
  | .field f => c.decodeField decode o f bs

def decodeSteps (decode : Object → Bytes → Decoded) (o : Object) :
    List WireStep → Bytes → Decoded
  | [], bs => ⟨o, .ok bs⟩
  | step :: steps, bs =>
    let d := c.decodeStep decode o step bs
    match d.rest with
    | .ok rest => decodeSteps decode d.object steps rest
    | .error e => ⟨d.object, .error e⟩

def decodeWithin : Nat → Object → Bytes → Decoded
  | 0, o, _ => ⟨o, .error (.tooDeep o.className)⟩
  | depth + 1, o, bs =>
    match c.plan o.className with
    | .error e => ⟨o, .error e⟩
    | .ok p => c.decodeSteps (decodeWithin depth) o p.wireSteps bs

/-- Decodes into an object. Inside the object itself there are no more levels than its height. An
element of a list is a new object, with no more levels than there are classes, and takes at least
one byte before it comes to a list of its own. -/
def decodeInto (o : Object) (bs : Bytes) : Decoded :=
  c.decodeWithin (o.height + (bs.length + 2) * (c.plans.length + 1)) o bs

def used (bs : Bytes) (d : Decoded) : Except CodecError Nat :=
  d.rest.map fun rest => bs.length - rest.length

def decode (className : String) (bs : Bytes) : Except CodecError Object := do
  let d := c.decodeInto (← c.instantiate className) bs
  let _ ← d.rest
  return d.object

end Codec

end WireSchema
