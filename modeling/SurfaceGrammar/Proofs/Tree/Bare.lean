import SurfaceGrammar.Proofs.Grammar.Phrase
import SurfaceGrammar.Proofs.Tree.Marks
import SurfaceGrammar.Tree.Rendering

/-!
# Bare trees

A bare tree is the structure of a tree without its marks. Two sources spell the same tree when
their bare trees are equal, wherever the nodes stand.

* `Expr.bare`, `Stmt.bare`, `Module.bare`: a tree without its marks.
* `Slot.bare`: the same for what stands between commas.
* `Module.render_eq_of_bare_eq`: the rendering of a tree depends on its bare structure only.
-/

namespace SurfaceGrammar

variable {α : Type}

/-- An expression without its marks. -/
def Expr.bare (e : Expr α) : Expr Unit := e.mapMark fun _ => ()

/-- A statement without its marks. -/
def Stmt.bare (s : Stmt α) : Stmt Unit := s.mapMark fun _ => ()

/-- The body of a function without its marks. -/
def Body.bare (b : Body α) : Body Unit := b.mapMark fun _ => ()

/-- A key with its value without their marks. -/
def Entry.bare (e : Entry α) : Entry Unit := ⟨e.key.bare, e.value.bare, ()⟩

/-- A label with its value without their marks. -/
def Field.bare (f : Field α) : Field Unit := ⟨f.label, f.value.bare, ()⟩

/-- A parameter without its marks. -/
def Parameter.bare (p : Parameter α) : Parameter Unit := ⟨p.label, p.type.map Expr.bare, ()⟩

/-- What stands between commas without its marks. -/
def Slot.bare : (slot : Slot) → slot.Tree α → slot.Tree Unit
  | .expr => Expr.bare
  | .entry => Entry.bare
  | .field => Field.bare
  | .parameter => Parameter.bare

@[simp] theorem Slot.bare_expr : (Slot.expr.bare : Expr α → Expr Unit) = Expr.bare := rfl

@[simp] theorem Slot.bare_entry : (Slot.entry.bare : Entry α → Entry Unit) = Entry.bare := rfl

@[simp] theorem Slot.bare_field : (Slot.field.bare : Field α → Field Unit) = Field.bare := rfl

@[simp] theorem Slot.bare_parameter :
    (Slot.parameter.bare : Parameter α → Parameter Unit) = Parameter.bare := rfl

/-- The statements of a source without their marks. -/
def Module.bare (m : Module) : List (Stmt Unit) := m.body.map Stmt.bare

/-! ## Lists -/

theorem Expr.mapMarkEach_eq (es : List (Expr α)) :
    Expr.mapMarkEach (fun _ => ()) es = es.map Expr.bare :=
  Expr.mapMarkEach_eq_map _ es

theorem Expr.mapMarkOption_eq (o : Option (Expr α)) :
    Expr.mapMarkOption (fun _ => ()) o = o.map Expr.bare :=
  Expr.mapMarkOption_eq_map _ o

theorem Entry.mapMarkEach_eq (es : List (Entry α)) :
    Entry.mapMarkEach (fun _ => ()) es = es.map Entry.bare :=
  Entry.mapMarkEach_eq_map _ es

theorem Field.mapMarkEach_eq (fs : List (Field α)) :
    Field.mapMarkEach (fun _ => ()) fs = fs.map Field.bare :=
  Field.mapMarkEach_eq_map _ fs

theorem Parameter.mapMarkEach_eq (ps : List (Parameter α)) :
    Parameter.mapMarkEach (fun _ => ()) ps = ps.map Parameter.bare :=
  Parameter.mapMarkEach_eq_map _ ps

theorem Stmt.mapMarkEach_eq (ss : List (Stmt α)) :
    Stmt.mapMarkEach (fun _ => ()) ss = ss.map Stmt.bare :=
  Stmt.mapMarkEach_eq_map _ ss

/-! ## Nodes -/

section Nodes

variable (mark : α)

@[simp] theorem Expr.bare_literal (value : Literal) :
    (Expr.literal value mark).bare = .literal value () := rfl

@[simp] theorem Expr.bare_label (name : String) :
    (Expr.label name mark).bare = .label name () := rfl

@[simp] theorem Expr.bare_sequence (form : SequenceForm) (es : List (Expr α)) :
    (Expr.sequence form es mark).bare = .sequence form (es.map Expr.bare) () := by
  simp only [Expr.bare, Expr.mapMark, Expr.mapMarkEach_eq]

@[simp] theorem Expr.bare_mapping (es : List (Entry α)) :
    (Expr.mapping es mark).bare = .mapping (es.map Entry.bare) () := by
  simp only [Expr.bare, Expr.mapMark, Entry.mapMarkEach_eq]

@[simp] theorem Expr.bare_object (fs : List (Field α)) :
    (Expr.object fs mark).bare = .object (fs.map Field.bare) () := by
  simp only [Expr.bare, Expr.mapMark, Field.mapMarkEach_eq]

@[simp] theorem Expr.bare_function (name : Option String) (ps : List (Parameter α))
    (type : Option (Expr α)) (body : Body α) :
    (Expr.function name ps type body mark).bare =
      .function name (ps.map Parameter.bare) (type.map Expr.bare) body.bare () := by
  simp only [Expr.bare, Expr.mapMark, Parameter.mapMarkEach_eq, Expr.mapMarkOption_eq, Body.bare]

@[simp] theorem Expr.bare_call (callee : Expr α) (es : List (Expr α)) :
    (Expr.call callee es mark).bare = .call callee.bare (es.map Expr.bare) () := by
  simp only [Expr.bare, Expr.mapMark, Expr.mapMarkEach_eq]

@[simp] theorem Expr.bare_member (base : Expr α) (field : String) :
    (Expr.member base field mark).bare = .member base.bare field () := rfl

@[simp] theorem Expr.bare_binary (left right : Expr α) (operator : BinaryOperator) :
    (Expr.binary left operator right mark).bare = .binary left.bare operator right.bare () := rfl

@[simp] theorem Expr.bare_suffix (base : Expr α) (operator : SuffixOperator) :
    (Expr.suffix base operator mark).bare = .suffix base.bare operator () := rfl

@[simp] theorem Expr.bare_conditional (condition thenBranch : Expr α)
    (elseBranch : Option (Expr α)) :
    (Expr.conditional condition thenBranch elseBranch mark).bare =
      .conditional condition.bare thenBranch.bare (elseBranch.map Expr.bare) () := by
  simp only [Expr.bare, Expr.mapMark, Expr.mapMarkOption_eq]

@[simp] theorem Expr.bare_block (kind : BlockKind) (body : List (Stmt α)) :
    (Expr.block kind body mark).bare = .block kind (body.map Stmt.bare) () := by
  simp only [Expr.bare, Expr.mapMark, Stmt.mapMarkEach_eq]

@[simp] theorem Expr.bare_declaration (name : String) (type : Option (Expr α)) (value : Expr α) :
    (Expr.declaration name type value mark).bare =
      .declaration name (type.map Expr.bare) value.bare () := by
  simp only [Expr.bare, Expr.mapMark, Expr.mapMarkOption_eq]

@[simp] theorem Expr.bare_update (name : String) (operator : Updater) (value : Expr α) :
    (Expr.update name operator value mark).bare = .update name operator value.bare () := rfl

@[simp] theorem Stmt.bare_expression (value : Expr α) :
    (Stmt.expression value).bare = .expression value.bare := rfl

@[simp] theorem Stmt.bare_typeDefinition (name : String) (definition : Expr α) :
    (Stmt.typeDefinition name definition mark).bare = .typeDefinition name definition.bare () := rfl

@[simp] theorem Body.bare_block (body : List (Stmt α)) :
    (Body.block body).bare = .block (body.map Stmt.bare) := by
  simp only [Body.bare, Body.mapMark, Stmt.mapMarkEach_eq]

@[simp] theorem Body.bare_arrow (value : Expr α) : (Body.arrow value).bare = .arrow value.bare :=
  rfl

end Nodes

/-! ## Rendering -/

section Rendering

variable {β : Type} (f : α → β)

mutual

theorem Expr.sexpr_mapMark : ∀ e : Expr α, (e.mapMark f).sexpr = e.sexpr
  | .literal _ _ => rfl
  | .label _ _ => rfl
  | .sequence _ es _ => by
    simp only [Expr.mapMark, Expr.sexpr, Expr.sexprEach_mapMark es]
  | .mapping es _ => by simp only [Expr.mapMark, Expr.sexpr, Entry.sexprEach_mapMark es]
  | .object fs _ => by simp only [Expr.mapMark, Expr.sexpr, Field.sexprEach_mapMark fs]
  | .function _ ps type body _ => by
    simp only [Expr.mapMark, Expr.sexpr, Parameter.sexprEach_mapMark ps,
      Expr.sexprOption_mapMark type, Body.sexpr_mapMark body]
  | .call callee es _ => by
    simp only [Expr.mapMark, Expr.sexpr, Expr.sexpr_mapMark callee, Expr.sexprEach_mapMark es]
  | .member base _ _ => by simp only [Expr.mapMark, Expr.sexpr, Expr.sexpr_mapMark base]
  | .binary left _ right _ => by
    simp only [Expr.mapMark, Expr.sexpr, Expr.sexpr_mapMark left, Expr.sexpr_mapMark right]
  | .suffix base _ _ => by simp only [Expr.mapMark, Expr.sexpr, Expr.sexpr_mapMark base]
  | .conditional condition thenBranch none _ => by
    simp only [Expr.mapMark, Expr.mapMarkOption, Expr.sexpr, Expr.sexpr_mapMark condition,
      Expr.sexpr_mapMark thenBranch]
  | .conditional condition thenBranch (some elseBranch) _ => by
    simp only [Expr.mapMark, Expr.mapMarkOption, Expr.sexpr, Expr.sexpr_mapMark condition,
      Expr.sexpr_mapMark thenBranch, Expr.sexpr_mapMark elseBranch]
  | .block _ body _ => by simp only [Expr.mapMark, Expr.sexpr, Stmt.sexprEach_mapMark body]
  | .declaration _ type value _ => by
    simp only [Expr.mapMark, Expr.sexpr, Expr.sexprOption_mapMark type,
      Expr.sexpr_mapMark value]
  | .update _ _ value _ => by simp only [Expr.mapMark, Expr.sexpr, Expr.sexpr_mapMark value]

theorem Body.sexpr_mapMark : ∀ b : Body α, (b.mapMark f).sexpr = b.sexpr
  | .block body => by simp only [Body.mapMark, Body.sexpr, Stmt.sexprEach_mapMark body]
  | .arrow value => by simp only [Body.mapMark, Body.sexpr, Expr.sexpr_mapMark value]

theorem Stmt.sexpr_mapMark : ∀ s : Stmt α, (s.mapMark f).sexpr = s.sexpr
  | .expression value => by simp only [Stmt.mapMark, Stmt.sexpr, Expr.sexpr_mapMark value]
  | .typeDefinition _ definition _ => by
    simp only [Stmt.mapMark, Stmt.sexpr, Expr.sexpr_mapMark definition]

theorem Expr.sexprEach_mapMark :
    ∀ es : List (Expr α), Expr.sexprEach (Expr.mapMarkEach f es) = Expr.sexprEach es
  | [] => rfl
  | e :: es => by
    simp only [Expr.mapMarkEach, Expr.sexprEach, Expr.sexpr_mapMark e, Expr.sexprEach_mapMark es]

theorem Expr.sexprOption_mapMark :
    ∀ o : Option (Expr α), Expr.sexprOption (Expr.mapMarkOption f o) = Expr.sexprOption o
  | none => rfl
  | some e => by simp only [Expr.mapMarkOption, Expr.sexprOption, Expr.sexpr_mapMark e]

theorem Entry.sexprEach_mapMark :
    ∀ es : List (Entry α), Entry.sexprEach (Entry.mapMarkEach f es) = Entry.sexprEach es
  | [] => rfl
  | ⟨key, value, _⟩ :: es => by
    simp only [Entry.mapMarkEach, Entry.sexprEach, Expr.sexpr_mapMark key,
      Expr.sexpr_mapMark value, Entry.sexprEach_mapMark es]

theorem Field.sexprEach_mapMark :
    ∀ fs : List (Field α), Field.sexprEach (Field.mapMarkEach f fs) = Field.sexprEach fs
  | [] => rfl
  | ⟨_, value, _⟩ :: fs => by
    simp only [Field.mapMarkEach, Field.sexprEach, Expr.sexpr_mapMark value,
      Field.sexprEach_mapMark fs]

theorem Parameter.sexprEach_mapMark : ∀ ps : List (Parameter α),
    Parameter.sexprEach (Parameter.mapMarkEach f ps) = Parameter.sexprEach ps
  | [] => rfl
  | ⟨_, none, _⟩ :: ps => by
    simp only [Parameter.mapMarkEach, Parameter.sexprEach, Parameter.sexprEach_mapMark ps]
  | ⟨_, some type, _⟩ :: ps => by
    simp only [Parameter.mapMarkEach, Parameter.sexprEach, Expr.sexpr_mapMark type,
      Parameter.sexprEach_mapMark ps]

theorem Stmt.sexprEach_mapMark :
    ∀ ss : List (Stmt α), Stmt.sexprEach (Stmt.mapMarkEach f ss) = Stmt.sexprEach ss
  | [] => rfl
  | s :: ss => by
    simp only [Stmt.mapMarkEach, Stmt.sexprEach, Stmt.sexpr_mapMark s, Stmt.sexprEach_mapMark ss]

end

/-- The rendering of a statement does not depend on its marks. -/
theorem Stmt.render_mapMark (s : Stmt α) : (s.mapMark f).render = s.render := by
  unfold Stmt.render
  rw [Stmt.sexpr_mapMark]

/-- The rendering of a statement depends on its bare structure only. -/
theorem Stmt.render_bare (s : Stmt α) : s.bare.render = s.render :=
  Stmt.render_mapMark _ s

theorem Module.map_render_bare (m : Module) :
    m.bare.map Stmt.render = m.body.map Stmt.render := by
  simp [Module.bare, Stmt.render_bare]

/-- The rendering of a module depends on its bare structure only. -/
theorem Module.render_eq_of_bare_eq {m n : Module} (h : m.bare = n.bare) :
    m.render = n.render := by
  unfold Module.render
  rw [← m.map_render_bare, ← n.map_render_bare, h]

end Rendering

end SurfaceGrammar
