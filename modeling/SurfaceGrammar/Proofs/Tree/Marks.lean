import SurfaceGrammar.Tree.Basic

/-!
# Trees with other marks

A tree with other marks has the same nodes, and each node gets its mark from the one that it had.

* `Entry.mapMark`, `Field.mapMark`, `Parameter.mapMark`: the parts of a node with other marks.
* `Expr.mapMarkEach_eq_map`, `Expr.mapMarkOption_eq_map`: lists of trees and trees that may be
  missing.
* `Expr.mark_mapMark`: the mark of a tree with other marks.
* `Stmt.mapMark_id`: a tree with its own marks.
* `Expr.mapMark_mapMark`: a tree whose marks are changed twice.
-/

namespace SurfaceGrammar

variable {α β γ : Type}

/-- A key and its value with other marks. -/
def Entry.mapMark (f : α → β) (e : Entry α) : Entry β :=
  ⟨e.key.mapMark f, e.value.mapMark f, f e.mark⟩

/-- A label and its value with other marks. -/
def Field.mapMark (f : α → β) (d : Field α) : Field β :=
  ⟨d.label, d.value.mapMark f, f d.mark⟩

/-- A parameter with other marks. -/
def Parameter.mapMark (f : α → β) (p : Parameter α) : Parameter β :=
  ⟨p.label, p.type.map (Expr.mapMark f), f p.mark⟩

/-! ## Lists -/

section Lists

variable (f : α → β)

theorem Expr.mapMarkEach_eq_map (es : List (Expr α)) :
    Expr.mapMarkEach f es = es.map (Expr.mapMark f) := by
  induction es with
  | nil => rfl
  | cons e es ih => exact congrArg (e.mapMark f :: ·) ih

theorem Expr.mapMarkOption_eq_map (o : Option (Expr α)) :
    Expr.mapMarkOption f o = o.map (Expr.mapMark f) := by
  cases o <;> rfl

theorem Entry.mapMarkEach_eq_map (es : List (Entry α)) :
    Entry.mapMarkEach f es = es.map (Entry.mapMark f) := by
  induction es with
  | nil => rfl
  | cons e es ih =>
    obtain ⟨key, value, mark⟩ := e
    exact congrArg (Entry.mapMark f ⟨key, value, mark⟩ :: ·) ih

theorem Field.mapMarkEach_eq_map (ds : List (Field α)) :
    Field.mapMarkEach f ds = ds.map (Field.mapMark f) := by
  induction ds with
  | nil => rfl
  | cons d ds ih =>
    obtain ⟨label, value, mark⟩ := d
    exact congrArg (Field.mapMark f ⟨label, value, mark⟩ :: ·) ih

theorem Parameter.mapMarkEach_eq_map (ps : List (Parameter α)) :
    Parameter.mapMarkEach f ps = ps.map (Parameter.mapMark f) := by
  induction ps with
  | nil => rfl
  | cons p ps ih =>
    obtain ⟨label, type, mark⟩ := p
    cases type with
    | none => exact congrArg (Parameter.mapMark f ⟨label, none, mark⟩ :: ·) ih
    | some e => exact congrArg (Parameter.mapMark f ⟨label, some e, mark⟩ :: ·) ih

theorem Stmt.mapMarkEach_eq_map (xs : List (Stmt α)) :
    Stmt.mapMarkEach f xs = xs.map (Stmt.mapMark f) := by
  induction xs with
  | nil => rfl
  | cons x xs ih => exact congrArg (x.mapMark f :: ·) ih

end Lists

/-! ## Nodes -/

section Nodes

variable (f : α → β) (mark : α)

theorem Expr.mapMark_sequence (form : SequenceForm) (es : List (Expr α)) :
    (Expr.sequence form es mark).mapMark f =
      .sequence form (es.map (Expr.mapMark f)) (f mark) := by
  rw [← Expr.mapMarkEach_eq_map]
  rfl

theorem Expr.mapMark_mapping (es : List (Entry α)) :
    (Expr.mapping es mark).mapMark f = .mapping (es.map (Entry.mapMark f)) (f mark) := by
  rw [← Entry.mapMarkEach_eq_map]
  rfl

theorem Expr.mapMark_object (ds : List (Field α)) :
    (Expr.object ds mark).mapMark f = .object (ds.map (Field.mapMark f)) (f mark) := by
  rw [← Field.mapMarkEach_eq_map]
  rfl

theorem Expr.mapMark_function (name : Option String) (ps : List (Parameter α))
    (type : Option (Expr α)) (body : Body α) :
    (Expr.function name ps type body mark).mapMark f =
      .function name (ps.map (Parameter.mapMark f)) (type.map (Expr.mapMark f)) (body.mapMark f)
        (f mark) := by
  rw [← Parameter.mapMarkEach_eq_map, ← Expr.mapMarkOption_eq_map]
  rfl

theorem Expr.mapMark_call (callee : Expr α) (es : List (Expr α)) :
    (Expr.call callee es mark).mapMark f =
      .call (callee.mapMark f) (es.map (Expr.mapMark f)) (f mark) := by
  rw [← Expr.mapMarkEach_eq_map]
  rfl

theorem Expr.mapMark_conditional (condition thenBranch : Expr α) (elseBranch : Option (Expr α)) :
    (Expr.conditional condition thenBranch elseBranch mark).mapMark f =
      .conditional (condition.mapMark f) (thenBranch.mapMark f)
        (elseBranch.map (Expr.mapMark f)) (f mark) := by
  rw [← Expr.mapMarkOption_eq_map]
  rfl

theorem Expr.mapMark_block (kind : BlockKind) (body : List (Stmt α)) :
    (Expr.block kind body mark).mapMark f = .block kind (body.map (Stmt.mapMark f)) (f mark) := by
  rw [← Stmt.mapMarkEach_eq_map]
  rfl

theorem Expr.mapMark_declaration (name : String) (type : Option (Expr α)) (value : Expr α) :
    (Expr.declaration name type value mark).mapMark f =
      .declaration name (type.map (Expr.mapMark f)) (value.mapMark f) (f mark) := by
  rw [← Expr.mapMarkOption_eq_map]
  rfl

theorem Body.mapMark_block (body : List (Stmt α)) :
    (Body.block body).mapMark f = .block (body.map (Stmt.mapMark f)) := by
  rw [← Stmt.mapMarkEach_eq_map]
  rfl

theorem Expr.mark_mapMark (e : Expr α) : (e.mapMark f).mark = f e.mark := by
  cases e <;> rfl

end Nodes

/-! ## The marks that a tree has -/

mutual

theorem Expr.mapMark_id : ∀ e : Expr α, e.mapMark id = e
  | .literal _ _ | .label _ _ => rfl
  | .sequence _ es _ => by rw [Expr.mapMark, Expr.mapMarkEach_id es, id]
  | .mapping es _ => by rw [Expr.mapMark, Entry.mapMarkEach_id es, id]
  | .object ds _ => by rw [Expr.mapMark, Field.mapMarkEach_id ds, id]
  | .function _ ps type body _ => by
    rw [Expr.mapMark, Parameter.mapMarkEach_id ps, Expr.mapMarkOption_id type,
      Body.mapMark_id body, id]
  | .call callee es _ => by
    rw [Expr.mapMark, Expr.mapMark_id callee, Expr.mapMarkEach_id es, id]
  | .member base _ _ | .suffix base _ _ => by rw [Expr.mapMark, Expr.mapMark_id base, id]
  | .binary left _ right _ => by
    rw [Expr.mapMark, Expr.mapMark_id left, Expr.mapMark_id right, id]
  | .conditional condition thenBranch elseBranch _ => by
    rw [Expr.mapMark, Expr.mapMark_id condition, Expr.mapMark_id thenBranch,
      Expr.mapMarkOption_id elseBranch, id]
  | .block _ body _ => by rw [Expr.mapMark, Stmt.mapMarkEach_id body, id]
  | .declaration _ type value _ => by
    rw [Expr.mapMark, Expr.mapMarkOption_id type, Expr.mapMark_id value, id]
  | .update _ _ value _ => by rw [Expr.mapMark, Expr.mapMark_id value, id]

theorem Body.mapMark_id : ∀ b : Body α, b.mapMark id = b
  | .block body => by rw [Body.mapMark, Stmt.mapMarkEach_id body]
  | .arrow value => by rw [Body.mapMark, Expr.mapMark_id value]

theorem Stmt.mapMark_id : ∀ x : Stmt α, x.mapMark id = x
  | .expression value => by rw [Stmt.mapMark, Expr.mapMark_id value]
  | .typeDefinition _ definition _ => by rw [Stmt.mapMark, Expr.mapMark_id definition, id]

theorem Expr.mapMarkEach_id : ∀ es : List (Expr α), Expr.mapMarkEach id es = es
  | [] => rfl
  | e :: es => by rw [Expr.mapMarkEach, Expr.mapMark_id e, Expr.mapMarkEach_id es]

theorem Expr.mapMarkOption_id : ∀ o : Option (Expr α), Expr.mapMarkOption id o = o
  | none => rfl
  | some e => by rw [Expr.mapMarkOption, Expr.mapMark_id e]

theorem Entry.mapMarkEach_id : ∀ es : List (Entry α), Entry.mapMarkEach id es = es
  | [] => rfl
  | ⟨key, value, _⟩ :: es => by
    rw [Entry.mapMarkEach, Expr.mapMark_id key, Expr.mapMark_id value, Entry.mapMarkEach_id es, id]

theorem Field.mapMarkEach_id : ∀ ds : List (Field α), Field.mapMarkEach id ds = ds
  | [] => rfl
  | ⟨_, value, _⟩ :: ds => by
    rw [Field.mapMarkEach, Expr.mapMark_id value, Field.mapMarkEach_id ds, id]

theorem Parameter.mapMarkEach_id : ∀ ps : List (Parameter α), Parameter.mapMarkEach id ps = ps
  | [] => rfl
  | ⟨_, none, _⟩ :: ps => by rw [Parameter.mapMarkEach, Parameter.mapMarkEach_id ps, id]
  | ⟨_, some type, _⟩ :: ps => by
    rw [Parameter.mapMarkEach, Expr.mapMark_id type, Parameter.mapMarkEach_id ps, id]

theorem Stmt.mapMarkEach_id : ∀ xs : List (Stmt α), Stmt.mapMarkEach id xs = xs
  | [] => rfl
  | x :: xs => by rw [Stmt.mapMarkEach, Stmt.mapMark_id x, Stmt.mapMarkEach_id xs]

end

/-! ## Marks that are changed twice -/

section Twice

variable (f : α → β) (g : β → γ)

mutual

theorem Expr.mapMark_mapMark : ∀ e : Expr α, (e.mapMark f).mapMark g = e.mapMark (g ∘ f)
  | .literal _ _ | .label _ _ => rfl
  | .sequence _ es _ => by simp only [Expr.mapMark, Expr.mapMarkEach_mapMarkEach es, Function.comp]
  | .mapping es _ => by simp only [Expr.mapMark, Entry.mapMarkEach_mapMarkEach es, Function.comp]
  | .object ds _ => by simp only [Expr.mapMark, Field.mapMarkEach_mapMarkEach ds, Function.comp]
  | .function _ ps type body _ => by
    simp only [Expr.mapMark, Parameter.mapMarkEach_mapMarkEach ps,
      Expr.mapMarkOption_mapMarkOption type, Body.mapMark_mapMark body, Function.comp]
  | .call callee es _ => by
    simp only [Expr.mapMark, Expr.mapMark_mapMark callee, Expr.mapMarkEach_mapMarkEach es,
      Function.comp]
  | .member base _ _ | .suffix base _ _ => by
    simp only [Expr.mapMark, Expr.mapMark_mapMark base, Function.comp]
  | .binary left _ right _ => by
    simp only [Expr.mapMark, Expr.mapMark_mapMark left, Expr.mapMark_mapMark right, Function.comp]
  | .conditional condition thenBranch elseBranch _ => by
    simp only [Expr.mapMark, Expr.mapMark_mapMark condition, Expr.mapMark_mapMark thenBranch,
      Expr.mapMarkOption_mapMarkOption elseBranch, Function.comp]
  | .block _ body _ => by simp only [Expr.mapMark, Stmt.mapMarkEach_mapMarkEach body, Function.comp]
  | .declaration _ type value _ => by
    simp only [Expr.mapMark, Expr.mapMarkOption_mapMarkOption type, Expr.mapMark_mapMark value,
      Function.comp]
  | .update _ _ value _ => by simp only [Expr.mapMark, Expr.mapMark_mapMark value, Function.comp]

theorem Body.mapMark_mapMark : ∀ b : Body α, (b.mapMark f).mapMark g = b.mapMark (g ∘ f)
  | .block body => by simp only [Body.mapMark, Stmt.mapMarkEach_mapMarkEach body]
  | .arrow value => by simp only [Body.mapMark, Expr.mapMark_mapMark value]

theorem Stmt.mapMark_mapMark : ∀ x : Stmt α, (x.mapMark f).mapMark g = x.mapMark (g ∘ f)
  | .expression value => by simp only [Stmt.mapMark, Expr.mapMark_mapMark value]
  | .typeDefinition _ definition _ => by
    simp only [Stmt.mapMark, Expr.mapMark_mapMark definition, Function.comp]

theorem Expr.mapMarkEach_mapMarkEach : ∀ es : List (Expr α),
    Expr.mapMarkEach g (Expr.mapMarkEach f es) = Expr.mapMarkEach (g ∘ f) es
  | [] => rfl
  | e :: es => by
    simp only [Expr.mapMarkEach, Expr.mapMark_mapMark e, Expr.mapMarkEach_mapMarkEach es]

theorem Expr.mapMarkOption_mapMarkOption : ∀ o : Option (Expr α),
    Expr.mapMarkOption g (Expr.mapMarkOption f o) = Expr.mapMarkOption (g ∘ f) o
  | none => rfl
  | some e => by simp only [Expr.mapMarkOption, Expr.mapMark_mapMark e]

theorem Entry.mapMarkEach_mapMarkEach : ∀ es : List (Entry α),
    Entry.mapMarkEach g (Entry.mapMarkEach f es) = Entry.mapMarkEach (g ∘ f) es
  | [] => rfl
  | ⟨key, value, _⟩ :: es => by
    simp only [Entry.mapMarkEach, Expr.mapMark_mapMark key, Expr.mapMark_mapMark value,
      Entry.mapMarkEach_mapMarkEach es, Function.comp]

theorem Field.mapMarkEach_mapMarkEach : ∀ ds : List (Field α),
    Field.mapMarkEach g (Field.mapMarkEach f ds) = Field.mapMarkEach (g ∘ f) ds
  | [] => rfl
  | ⟨_, value, _⟩ :: ds => by
    simp only [Field.mapMarkEach, Expr.mapMark_mapMark value, Field.mapMarkEach_mapMarkEach ds,
      Function.comp]

theorem Parameter.mapMarkEach_mapMarkEach : ∀ ps : List (Parameter α),
    Parameter.mapMarkEach g (Parameter.mapMarkEach f ps) = Parameter.mapMarkEach (g ∘ f) ps
  | [] => rfl
  | ⟨_, none, _⟩ :: ps => by
    simp only [Parameter.mapMarkEach, Parameter.mapMarkEach_mapMarkEach ps, Function.comp]
  | ⟨_, some type, _⟩ :: ps => by
    simp only [Parameter.mapMarkEach, Expr.mapMark_mapMark type,
      Parameter.mapMarkEach_mapMarkEach ps, Function.comp]

theorem Stmt.mapMarkEach_mapMarkEach : ∀ xs : List (Stmt α),
    Stmt.mapMarkEach g (Stmt.mapMarkEach f xs) = Stmt.mapMarkEach (g ∘ f) xs
  | [] => rfl
  | x :: xs => by
    simp only [Stmt.mapMarkEach, Stmt.mapMark_mapMark x, Stmt.mapMarkEach_mapMarkEach xs]

end

end Twice

end SurfaceGrammar
