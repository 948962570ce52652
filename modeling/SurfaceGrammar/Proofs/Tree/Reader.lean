import SurfaceGrammar.Proofs.Token.Shape
import SurfaceGrammar.Tree.Rendering

/-!
# Reading S-expressions

The text of an S-expression is read one character at a time. A reader knows the lists that are open
and the atom that it is in; spaces and parentheses end an atom unless it stands between quotes.

* `Sexpr.Reader`: where a reader stands.
* `Sexpr.Reader.next`: the reader after a character.
* `Sexpr.read?`: the S-expression that a text spells.
* `Sexpr.Legible`: the S-expressions whose atoms can be told apart.
* `Sexpr.read?_render`: a legible S-expression is read back from its text.
-/

namespace SurfaceGrammar.Sexpr

open Lexeme (InsideQuotes)

/-! ## The reader -/

/-- Where a reader stands between two characters. The texts of atoms are kept from their ends. -/
inductive Mode where
  | between
  | bare (text : List Char)
  | quoted (quote : Char) (text : List Char)
  /-- Right after a backslash between quotes. -/
  | escaped (quote : Char) (text : List Char)

/-- What was read of a text. -/
structure Reader where
  mode : Mode
  /-- The items of the innermost open list, from the last one on. -/
  items : List Sexpr
  /-- The items of the lists around it. -/
  outer : List (List Sexpr)

namespace Reader

/-- The reader before the first character. -/
def start : Reader := ⟨.between, [], []⟩

/-- The reader after one more item. -/
def push (r : Reader) (item : Sexpr) : Reader :=
  { r with mode := .between, items := item :: r.items }

/-- The reader after the atom that it is in, if it stands in one without quotes. -/
def settle (r : Reader) : Reader :=
  match r.mode with
  | .bare text => r.push (.atom (String.ofList text.reverse))
  | _ => r

/-- The reader after an opening parenthesis. -/
def openList (r : Reader) : Reader := ⟨.between, [], r.items :: r.outer⟩

/-- The reader after a closing parenthesis, which has no effect if no list is open. -/
def closeList (r : Reader) : Reader :=
  match r.outer with
  | [] => r
  | items :: outer => ⟨.between, .list r.items.reverse :: items, outer⟩

/-- The reader after a character outside of quotes. -/
def nextPlain (r : Reader) (c : Char) : Reader :=
  if c = ' ' then r.settle
  else if c = '(' then r.settle.openList
  else if c = ')' then r.settle.closeList
  else
    match r.mode with
    | .bare text => { r with mode := .bare (c :: text) }
    | _ => { r with mode := if c = '"' ∨ c = '\'' then .quoted c [c] else .bare [c] }

/-- The reader after a character. -/
def next (r : Reader) (c : Char) : Reader :=
  match r.mode with
  | .quoted quote text =>
    if c = '\\' then { r with mode := .escaped quote (c :: text) }
    else if c = quote then r.push (.atom (String.ofList (c :: text).reverse))
    else { r with mode := .quoted quote (c :: text) }
  | .escaped quote text => { r with mode := .quoted quote (c :: text) }
  | _ => r.nextPlain c

end Reader

/-- The S-expression that a text spells. -/
def read? (text : List Char) : Option Sexpr :=
  match (text.foldl Reader.next Reader.start).settle with
  | ⟨.between, [item], []⟩ => some item
  | _ => none

/-! ## Legible S-expressions -/

/-- A character that an atom without quotes can have. -/
def IsBare (c : Char) : Prop :=
  c ∉ [' ', '(', ')', '"', '\'', '\n']

instance (c : Char) : Decidable (IsBare c) := inferInstanceAs (Decidable (¬_))

/-- The texts that are read as one atom. -/
inductive IsAtom : List Char → Prop
  | bare {text : List Char} (ne : text ≠ []) (bare : ∀ c ∈ text, IsBare c) : IsAtom text
  | quoted {quote : Char} {body : List Char} (mark : quote = '"' ∨ quote = '\'')
      (inside : InsideQuotes quote body) : IsAtom (quote :: body ++ [quote])

mutual

/-- The atoms of an S-expression can be told apart. -/
def Legible : Sexpr → Prop
  | .atom text => IsAtom text.toList
  | .list items => LegibleEach items

/-- The atoms of S-expressions can be told apart. -/
def LegibleEach : List Sexpr → Prop
  | [] => True
  | item :: rest => item.Legible ∧ LegibleEach rest

end

/-! ## Reading what was rendered -/

namespace Reader

variable {r : Reader} {text body : List Char} {quote : Char} {s : Sexpr}

theorem settle_eq (h : r.mode = .between) : r.settle = r := by
  unfold settle
  rw [h]

/-- Only outside of quotes does nothing remain to be settled. -/
theorem next_eq (h : r.settle.mode = .between) (c : Char) : r.next c = r.nextPlain c := by
  unfold next
  split
  · next hmode => simp [settle, hmode] at h
  · next hmode => simp [settle, hmode] at h
  · rfl

theorem next_space (h : r.settle.mode = .between) : r.next ' ' = r.settle := by
  rw [next_eq h]
  rfl

theorem next_open (h : r.settle.mode = .between) : r.next '(' = r.settle.openList := by
  rw [next_eq h]
  rfl

theorem next_close (h : r.settle.mode = .between) : r.next ')' = r.settle.closeList := by
  rw [next_eq h]
  rfl

/-- The rest of an atom without quotes. -/
theorem foldl_bare (h : ∀ c ∈ text, IsBare c) (before : List Char) :
    text.foldl next { r with mode := .bare before } =
      { r with mode := .bare (text.reverse ++ before) } := by
  induction text generalizing before with
  | nil => rfl
  | cons c text ih =>
    have hc := h c List.mem_cons_self
    simp only [IsBare, List.mem_cons, not_or] at hc
    have hnext : next { r with mode := .bare before } c =
        { r with mode := .bare (c :: before) } := by
      simp [next, nextPlain, hc]
    rw [List.foldl_cons, hnext, ih fun d hd => h d (List.mem_cons_of_mem c hd)]
    simp

/-- The rest of an atom between quotes. The induction is on what stands between them. -/
theorem foldl_quoted (h : InsideQuotes quote body) (before : List Char) :
    body.foldl next { r with mode := .quoted quote before } =
      { r with mode := .quoted quote (body.reverse ++ before) } := by
  induction h generalizing before with
  | nil => rfl
  | @plain c body hquote hline hbackslash _ ih =>
    have hnext : next { r with mode := .quoted quote before } c =
        { r with mode := .quoted quote (c :: before) } := by
      simp [next, hquote, hbackslash]
    rw [List.foldl_cons, hnext, ih]
    simp
  | @escape e body _ _ _ ih =>
    have hnext : next (next { r with mode := .quoted quote before } '\\') e =
        { r with mode := .quoted quote (e :: '\\' :: before) } := by
      simp [next]
    rw [List.foldl_cons, List.foldl_cons, hnext, ih]
    simp

theorem settle_foldl_atom (hr : r.mode = .between) (h : IsAtom text) :
    (text.foldl next r).settle = r.push (.atom (String.ofList text)) := by
  cases h with
  | bare hne hbare =>
    obtain ⟨c, rest, rfl⟩ := List.exists_cons_of_ne_nil hne
    have hc := hbare c List.mem_cons_self
    simp only [IsBare, List.mem_cons, not_or] at hc
    have hnext : r.next c = { r with mode := .bare [c] } := by
      simp [next, nextPlain, hr, hc]
    rw [List.foldl_cons, hnext, foldl_bare fun d hd => hbare d (List.mem_cons_of_mem c hd)]
    simp [settle, push]
  | @quoted quote body hmark hinside =>
    have hfirst : r.next quote = { r with mode := .quoted quote [quote] } := by
      obtain rfl | rfl := hmark <;> simp [next, nextPlain, hr]
    have hlast : quote ≠ '\\' := by obtain rfl | rfl := hmark <;> decide
    rw [List.cons_append, List.foldl_cons, hfirst, List.foldl_append, foldl_quoted hinside]
    simp [next, hlast, push, settle]

end Reader

section Rendering

open Reader

theorem toList_renderEach_cons (item : Sexpr) (rest : List Sexpr) (h : rest ≠ []) :
    (renderEach (item :: rest)).toList = item.render.toList ++ ' ' :: (renderEach rest).toList := by
  cases rest with
  | nil => exact absurd rfl h
  | cons next rest => simp [renderEach]

mutual

/-- Reading a legible S-expression adds one item. -/
theorem settle_foldl_render : ∀ s : Sexpr, s.Legible → ∀ r : Reader, r.mode = .between →
    (s.render.toList.foldl next r).settle = r.push s
  | .atom text => by
    intro hs r hr
    have hatom := settle_foldl_atom hr hs
    rwa [String.ofList_toList] at hatom
  | .list items => by
    intro hs r hr
    have hitems := settle_foldl_renderEach items hs r.openList rfl
    have hrender : (render (.list items)).toList = '(' :: ((renderEach items).toList ++ [')']) := by
      simp [render]
    rw [hrender, List.foldl_cons, next_open (by rw [settle_eq hr, hr]), settle_eq hr,
      List.foldl_append, List.foldl_cons, List.foldl_nil, next_close (by rw [hitems]; rfl), hitems]
    simp [closeList, openList, settle, push]

/-- Reading legible S-expressions one after another adds them all. -/
theorem settle_foldl_renderEach : ∀ items : List Sexpr, LegibleEach items → ∀ r : Reader,
    r.mode = .between → ((renderEach items).toList.foldl next r).settle =
      { r with items := items.reverse ++ r.items }
  | [] => by
    intro _ r hr
    have hnil : (renderEach []).toList = [] := rfl
    rw [hnil, List.foldl_nil, settle_eq hr]
    rfl
  | [item] => by
    intro hs r hr
    rw [renderEach, settle_foldl_render item hs.1 r hr, push, hr]
    rfl
  | item :: next :: rest => by
    intro hs r hr
    have hitem := settle_foldl_render item hs.1 r hr
    have hrest := settle_foldl_renderEach (next :: rest) hs.2 (r.push item) rfl
    rw [toList_renderEach_cons item (next :: rest) (List.cons_ne_nil _ _), List.foldl_append,
      List.foldl_cons, next_space (by rw [hitem]; rfl), hitem, hrest]
    simp [push, hr]

end

/-- A legible S-expression is read back from its text. -/
theorem read?_render {s : Sexpr} (h : s.Legible) : read? s.render.toList = some s := by
  unfold read?
  rw [settle_foldl_render s h start rfl]
  rfl

theorem not_mem_of_isAtom {text : List Char} (h : IsAtom text) : '\n' ∉ text := by
  cases h with
  | bare _ hbare => exact fun hmem => hbare _ hmem (by decide)
  | @quoted quote body hmark hinside =>
    have hquote : '\n' ≠ quote := by obtain rfl | rfl := hmark <;> decide
    have hbody : '\n' ∉ body := by
      induction hinside with
      | nil => exact List.not_mem_nil
      | plain _ hline _ _ ih =>
        simp only [List.mem_cons, not_or]
        exact ⟨Ne.symm hline, ih⟩
      | escape _ hline _ ih =>
        simp only [List.mem_cons, not_or]
        exact ⟨by decide, Ne.symm hline, ih⟩
    simp [hquote, hbody]

mutual

/-- The text of a legible S-expression is one line. -/
theorem not_mem_render : ∀ s : Sexpr, s.Legible → '\n' ∉ s.render.toList
  | .atom _ => not_mem_of_isAtom
  | .list items => by
    intro hs
    have hitems := not_mem_renderEach items hs
    simpa [render] using hitems

theorem not_mem_renderEach : ∀ items : List Sexpr, LegibleEach items →
    '\n' ∉ (renderEach items).toList
  | [] => fun _ => List.not_mem_nil
  | [item] => fun hs => not_mem_render item hs.1
  | item :: next :: rest => by
    intro hs
    have hitem := not_mem_render item hs.1
    have hrest := not_mem_renderEach (next :: rest) hs.2
    rw [toList_renderEach_cons item (next :: rest) (List.cons_ne_nil _ _)]
    simp [hitem, hrest]

end

/-- The text of a legible S-expression is not empty. -/
theorem render_ne_nil : ∀ {s : Sexpr}, s.Legible → s.render.toList ≠ []
  | .atom text, h => by
    intro hnil
    change text.toList = [] at hnil
    have hatom : IsAtom text.toList := h
    rw [hnil] at hatom
    cases hatom with
    | bare hne _ => exact hne rfl
  | .list items, _ => by simp [render]

end Rendering

end SurfaceGrammar.Sexpr
