import TDB.Value
import TDB.WhereClause

namespace TDB

open Where (ConjunctionType ExprType)

/-- `CompOp`, in the order of the source. -/
inductive CompOp where
  | equalTo | lessEqual | notEqual | lessThan | greatEqual | greatThan | likeOp | notLikeOp
  | isNull | isNotNull | inOp | notInOp | existsOp | notExistsOp | noOp
  deriving DecidableEq, Repr

inductive OtherExprType where
  | arithmetic | relAttr | aggr
  deriving DecidableEq, Repr

/-- Expressions over tuples of type `T`.  A field is the cell that `find_cell` gives for it;
`unary` is a comparison whose right side is the null pointer. -/
inductive Expression (T : Type) where
  | field (findCell : T → Except Failure Value)
  | value (value : Value)
  | values (values : List Value)
  | comparison (comp : CompOp) (left right : Expression T)
  | unary (comp : CompOp) (left : Expression T)
  | conjunction (type : ConjunctionType) (children : List (Expression T))
  | other (type : OtherExprType) (getValue : T → Except Failure Value)

variable {T : Type}

namespace Expression

def type : Expression T → ExprType
  | .field _ => .field
  | .value _ => .value
  | .values _ => .values
  | .comparison .. => .comparison
  | .unary .. => .comparison
  | .conjunction .. => .conjunction
  | .other .arithmetic _ => .arithmetic
  | .other .relAttr _ => .relAttr
  | .other .aggr _ => .aggr

def values? : Expression T → Option (List Value)
  | .values vs => some vs
  | _ => none

end Expression

/-! ## Comparing values -/

def Value.dataBytes (lib : StdLib) (v : Value) : List UInt8 :=
  let bytes := match v with
    | .chars s => s
    | .texts s => s
    | v => lib.numBytes v
  bytes.takeWhile (· ≠ 0)

/-- `replace_all` for a pattern of one character. -/
def replaceAll (str : List UInt8) (pattern : UInt8) (replacement : List UInt8) : List UInt8 :=
  str.flatMap fun c => if c = pattern then replacement else [c]

/-- The pattern of `LIKE` as a regular expression: `_` is `[^']` and `%` is `[^']*`. -/
def likePattern (lib : StdLib) (right : Value) : List UInt8 :=
  replaceAll (replaceAll (right.dataBytes lib) 0x5F [0x5B, 0x5E, 0x27, 0x5D])
    0x25 [0x5B, 0x5E, 0x27, 0x5D, 0x2A]

def valueIn (lib : StdLib) (value : Value) (vs : List Value) : Bool :=
  vs.any fun cache => cache.compare lib value = 0

/-- `ComparisonExpr::compare_value`.  The two sides are looked at for `EXISTS` and `IN` only; the
right one is `none` when its pointer is null. -/
def compareValue (lib : StdLib) (comp : CompOp) (leftExpr : Expression T)
    (rightExpr : Option (Expression T)) (left right : Value) : Except Failure Bool :=
  match comp with
  | .existsOp | .notExistsOp =>
    match leftExpr.values? with
    | some vs => .ok (if comp = .existsOp then !vs.isEmpty else vs.isEmpty)
    | none => .error (.code .invalidArgument)
  | .inOp | .notInOp =>
    match rightExpr with
    | none => .error .crash
    | some e =>
      match e.values? with
      | some vs => .ok (if comp = .inOp then valueIn lib left vs else !valueIn lib left vs)
      | none => .error (.code .invalidArgument)
  | .isNull => .ok left.isNull
  | .isNotNull => .ok (!left.isNull)
  | comp =>
    if left.isNull || right.isNull then .ok false
    else
      let cmpResult := left.compare lib right
      match comp with
      | .equalTo => .ok (cmpResult = 0)
      | .lessEqual => .ok (cmpResult ≤ 0)
      | .notEqual => .ok (cmpResult ≠ 0)
      | .lessThan => .ok (cmpResult < 0)
      | .greatEqual => .ok (cmpResult ≥ 0)
      | .greatThan => .ok (cmpResult > 0)
      | .likeOp | .notLikeOp =>
        match lib.regexMatch (left.dataBytes lib) (likePattern lib right) with
        | none => .error .exception
        | some result => .ok (if comp = .likeOp then result else !result)
      | _ => .error (.code .internal)

/-! ## Evaluation -/

namespace Expression

mutual

/-- `get_value`.  A `ValuesExpr` leaves its argument as it is, which is a new value in every use
under a comparison. -/
def getValue (lib : StdLib) (tuple : T) : Expression T → Except Failure Value
  | .field findCell => findCell tuple
  | .value v => .ok v
  | .values _ => .ok .undefined
  | .comparison comp left right => do
    let leftValue ← getValue lib tuple left
    let rightValue ← getValue lib tuple right
    return .booleans (← compareValue lib comp left (some right) leftValue rightValue)
  | .unary comp left => do
    let leftValue ← getValue lib tuple left
    return .booleans (← compareValue lib comp left none leftValue .undefined)
  | .conjunction _ [] => .ok (.booleans true)
  | .conjunction type (e :: es) => getValueLoop lib tuple type (e :: es)
  | .other _ getValue => getValue tuple

/-- The loop of `ConjunctionExpr::get_value`, with its early return and its default. -/
def getValueLoop (lib : StdLib) (tuple : T) (type : ConjunctionType) :
    List (Expression T) → Except Failure Value
  | [] => .ok (.booleans (type == .and))
  | e :: es => do
    let v ← getValue lib tuple e
    let b := v.getBoolean lib
    if (type == .and && !b) || (type == .or && b) then return .booleans b
    getValueLoop lib tuple type es

end

/-- `try_get_value` of a comparison: a value only if both sides are constants. -/
def tryGetValue (lib : StdLib) : Expression T → Except Failure Value
  | .comparison comp (.value left) (.value right) =>
    (compareValue lib comp (.value left : Expression T) (some (.value right)) left right).map
      .booleans
  | _ => .error (.code .invalidArgument)

/-- Induction over expressions: a conjunction has its property if every child has it. -/
@[elab_as_elim]
theorem induct {P : Expression T → Prop} (field : ∀ f, P (.field f)) (value : ∀ v, P (.value v))
    (values : ∀ vs, P (.values vs))
    (comparison : ∀ comp left right, P left → P right → P (.comparison comp left right))
    (unary : ∀ comp left, P left → P (.unary comp left))
    (conjunction : ∀ type es, (∀ e ∈ es, P e) → P (.conjunction type es))
    (other : ∀ type f, P (.other type f)) (e : Expression T) : P e := by
  apply @Expression.rec T P (fun es => ∀ e ∈ es, P e) field value values comparison unary
    conjunction other
  · simp
  · intro e es he hes e' he'
    rcases List.mem_cons.mp he' with rfl | he'
    · exact he
    · exact hes e' he'

theorem exists_of_bind_ok {ε α β : Type} {x : Except ε α} {f : α → Except ε β} {b : β}
    (h : (x >>= f) = .ok b) : ∃ a, x = .ok a ∧ f a = .ok b := by
  cases x with
  | error g => cases h
  | ok a => exact ⟨a, rfl, h⟩

/-- Each result of a loop comes from an element. -/
theorem exists_of_mapM_ok {ε α β : Type} {f : α → Except ε β} {as : List α} {bs : List β}
    (h : as.mapM f = .ok bs) : ∀ b ∈ bs, ∃ a ∈ as, f a = .ok b := by
  induction as generalizing bs with
  | nil =>
    cases h
    intro b hb
    cases hb
  | cons a as ih =>
    rw [List.mapM_cons] at h
    obtain ⟨b, hb, h⟩ := exists_of_bind_ok h
    obtain ⟨rest, hrest, h⟩ := exists_of_bind_ok h
    obtain rfl := Except.ok.inj h
    intro x hx
    rcases List.mem_cons.mp hx with rfl | hx
    · exact ⟨a, List.mem_cons_self, hb⟩
    · obtain ⟨y, hy, hfy⟩ := ih hrest x hx
      exact ⟨y, List.mem_cons_of_mem _ hy, hfy⟩

theorem of_bind_error {ε α β : Type} {x : Except ε α} {f : α → Except ε β} {e : ε}
    (h : (x >>= f) = .error e) : x = .error e ∨ ∃ a, x = .ok a ∧ f a = .error e := by
  cases x with
  | error g =>
    obtain rfl : g = e := Except.error.inj h
    exact .inl rfl
  | ok a => exact .inr ⟨a, rfl, h⟩

theorem getValue_comparison_boolean {lib : StdLib} {tuple : T} {comp : CompOp}
    {left right : Expression T} {v : Value}
    (h : getValue lib tuple (.comparison comp left right) = .ok v) : ∃ b, v = .booleans b := by
  rw [getValue] at h
  obtain ⟨l, -, h⟩ := exists_of_bind_ok h
  obtain ⟨r, -, h⟩ := exists_of_bind_ok h
  obtain ⟨b, -, h⟩ := exists_of_bind_ok h
  exact ⟨b, (Except.ok.inj h).symm⟩

theorem getValueLoop_boolean {lib : StdLib} {tuple : T} {type : ConjunctionType}
    {es : List (Expression T)} {v : Value} (h : getValueLoop lib tuple type es = .ok v) :
    ∃ b, v = .booleans b := by
  induction es with
  | nil => exact ⟨_, (Except.ok.inj h).symm⟩
  | cons e es ih =>
    rw [getValueLoop] at h
    obtain ⟨w, -, h⟩ := exists_of_bind_ok h
    dsimp only at h
    split at h
    · exact ⟨_, (Except.ok.inj h).symm⟩
    · exact ih h

theorem getValue_conjunction_boolean {lib : StdLib} {tuple : T} {type : ConjunctionType}
    {es : List (Expression T)} {v : Value}
    (h : getValue lib tuple (.conjunction type es) = .ok v) : ∃ b, v = .booleans b := by
  cases es with
  | nil => exact ⟨true, (Except.ok.inj h).symm⟩
  | cons e es =>
    rw [getValue] at h
    exact getValueLoop_boolean h

/-- The truth value of an expression on a tuple, false if it has none. -/
def truth (lib : StdLib) (tuple : T) (e : Expression T) : Bool :=
  match e.getValue lib tuple with
  | .ok v => v.getBoolean lib
  | .error _ => false

theorem getValue_eq_truth {lib : StdLib} {tuple : T} {e : Expression T} {b : Bool}
    (h : e.getValue lib tuple = .ok (.booleans b)) :
    e.getValue lib tuple = .ok (.booleans (e.truth lib tuple)) := by
  rw [truth, h]
  rfl

theorem getValueLoop_cons (lib : StdLib) (tuple : T) (type : ConjunctionType) {e : Expression T}
    (es : List (Expression T)) {v : Value} (h : e.getValue lib tuple = .ok v) :
    getValueLoop lib tuple type (e :: es) =
      if (type == .and && !e.truth lib tuple) || (type == .or && e.truth lib tuple) then
        .ok (.booleans (e.truth lib tuple))
      else getValueLoop lib tuple type es := by
  simp only [getValueLoop, truth, h, bind, Except.bind]
  rfl

/-- The value of a conjunction all of whose children have a value; an empty one is true. -/
theorem getValue_conjunction (lib : StdLib) (tuple : T) (type : ConjunctionType)
    {es : List (Expression T)} (h : ∀ e ∈ es, ∃ v, e.getValue lib tuple = .ok v) :
    getValue lib tuple (.conjunction type es) = .ok (.booleans (match type with
      | .and => es.all (truth lib tuple)
      | .or => es.isEmpty || es.any (truth lib tuple))) := by
  have hloop : getValueLoop lib tuple type es = .ok (.booleans (match type with
      | .and => es.all (truth lib tuple)
      | .or => es.any (truth lib tuple))) := by
    induction es with
    | nil => cases type <;> rfl
    | cons e es ih =>
      obtain ⟨v, hv⟩ := h e (by simp)
      rw [getValueLoop_cons lib tuple type es hv, ih fun e' he' => h e' (by simp [he'])]
      cases type <;> cases hb : e.truth lib tuple <;> simp [hb]
  cases es with
  | nil => cases type <;> rfl
  | cons e es =>
    rw [getValue, hloop]
    cases type <;> rfl

end Expression

end TDB
