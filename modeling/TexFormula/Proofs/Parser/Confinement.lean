import Mathlib.Logic.Relation
import TexFormula.Proofs.Parser.Correspondence
import TexFormula.Proofs.Parser.Forward

/-!
# What a run can do to the state

Whatever is read, from whatever state and whether it succeeds or not, the parser does four things to its state
and no others.

* `ParserState.Step limit s t` : the four things; the limit only counts where a level is entered;
* `Walks limit s t` : any number of them one after the other;
* `LeadsTo T E m` : from every state the run `m` leads to one in `T`, or in `E` if it stops; `Course limit T E` : what
  has to be shown of `T` and `E` so that everything that is read leads there;
* `Confined limit m` : the run `m` leaves every state by such steps; `confined_read` is this for `Production.read`
  under any rules.

So what each of the four steps keeps is kept by every run: `Walks.leads` and `Walks.depth_le` are proved that way.
-/

namespace TexFormula

open ParseM

/-! ## Steps -/

/-- What the parser does to its state at once. -/
inductive ParserState.Step (limit : Nat) : ParserState → ParserState → Prop
  | advance (s : ParserState) : Step limit s { s with cursor := s.cursor.advance }
  | enter {s : ParserState} : s.depth < limit → Step limit s { s with depth := s.depth + 1 }
  | leave (s : ParserState) : Step limit s { s with depth := s.depth - 1 }
  | setBars (s : ParserState) (bars : Nat) : Step limit s { s with openBars := bars }

/-- The second state comes from the first by any number of steps. -/
def Walks (limit : Nat) : ParserState → ParserState → Prop := Relation.ReflTransGen (ParserState.Step limit)

section
variable {limit : Nat} {s t u : ParserState}

theorem Walks.refl (s : ParserState) : Walks limit s s := Relation.ReflTransGen.refl

theorem Walks.trans (h : Walks limit s t) (h' : Walks limit t u) : Walks limit s u := Relation.ReflTransGen.trans h h'

theorem ParserState.Step.walks (h : s.Step limit t) : Walks limit s t := Relation.ReflTransGen.single h

theorem Walks.leads (h : Walks limit s t) : s.cursor.Leads t.cursor := by
  induction h with
  | refl => exact .refl _
  | tail _ hstep ih =>
    cases hstep with
    | advance => exact ih.trans (Cursor.leads_advance _)
    | enter _ => exact ih
    | leave => exact ih
    | setBars => exact ih

/-- Steps do not go deeper than the limit. -/
theorem Walks.depth_le (h : Walks limit s t) (hs : s.depth ≤ limit) : t.depth ≤ limit := by
  induction h with
  | refl => exact hs
  | tail _ hstep ih =>
    cases hstep with
    | advance => exact ih
    | enter hlt => exact hlt
    | leave => exact Nat.le_trans (Nat.sub_le _ _) ih
    | setBars => exact ih

end

/-! ## Runs -/

/-- The run leads from every state to one in `T` if it succeeds, and to one in `E` if it stops. -/
def LeadsTo {α : Type} (T E : ParserState → ParserState → Prop) (m : ParseM α) : Prop :=
  ∀ s, match m s with
    | .ok _ t => T s t
    | .error _ t => E s t

/-- What has to be shown of two relations so that all readings lead to states in these. -/
structure Course (limit : Nat) (T E : ParserState → ParserState → Prop) : Prop where
  refl (s : ParserState) : T s s
  trans {s t u : ParserState} : T s t → T t u → T s u
  stop (s : ParserState) : E s s
  trans_stop {s t u : ParserState} : T s t → E t u → E s u
  advance (s : ParserState) : T s { s with cursor := s.cursor.advance }
  nested {α : Type} {m : ParseM α} : LeadsTo T E m → LeadsTo T E (nested limit m)
  withBars {α : Type} {m : ParseM α} (bars : Nat → Nat) : LeadsTo T E m → LeadsTo T E (withBars bars m)

section
variable {α β : Type} {limit : Nat} {T E : ParserState → ParserState → Prop}

theorem LeadsTo.of_ok {m : ParseM α} (h : LeadsTo T E m) {s t : ParserState} {a : α} (ha : m s = .ok a t) : T s t := by
  have hm := h s
  rw [ha] at hm
  exact hm

theorem LeadsTo.bind {m : ParseM α} {f : α → ParseM β} (hm : LeadsTo T E m)
    (htrans : ∀ {s t u}, T s t → T t u → T s u) (hstop : ∀ {s t u}, T s t → E t u → E s u)
    (hf : ∀ s a t, m s = .ok a t → LeadsTo T E (f a)) : LeadsTo T E (m >>= f) := by
  intro s
  have hfirst := hm s
  have hrest := hf s
  show match EStateM.bind m f s with | .ok _ t => T s t | .error _ t => E s t
  unfold EStateM.bind
  cases hr : m s with
  | error halt t =>
    rw [hr] at hfirst
    exact hfirst
  | ok a t =>
    rw [hr] at hfirst
    have hnext := hrest a t hr t
    dsimp only
    cases hb : f a t with
    | error halt u =>
      rw [hb] at hnext
      exact hstop hfirst hnext
    | ok b u =>
      rw [hb] at hnext
      exact htrans hfirst hnext

namespace Course

theorem advanceBy (hc : Course limit T E) (n : Nat) (s : ParserState) :
    T s { s with cursor := s.cursor.advanceBy n } := by
  induction n generalizing s with
  | zero => exact hc.refl s
  | succ n ih => exact hc.trans (hc.advance s) (ih { s with cursor := s.cursor.advance })

def steps (hc : Course limit T E) : StepRelation Eq Eq where
  Rel V m m' := Mirrors Eq Eq V m m' ∧ LeadsTo T E m
  views := views_eq
  pure h := ⟨views_eq.mirrors.pure h, hc.refl⟩
  bind {_ _ _ _ _ _ _ m' _ _} hm hf := by
    refine ⟨hm.1.bind fun a a' ha => (hf a a' ha).1, hm.2.bind hc.trans hc.trans_stop fun s a t ha => ?_⟩
    have hends := hm.1 s s rfl
    rw [ha] at hends
    generalize m' s = r at hends
    cases hends with
    | ok hV _ => exact (hf a _ hV).2
  state := ⟨views_eq.mirrors.state, hc.refl⟩
  advance := ⟨views_eq.mirrors.advance, hc.advance⟩
  takeName := ⟨views_eq.mirrors.takeName, fun s => hc.advanceBy (s.cursor.fragments 0).length s⟩
  reject fault _ _ ht := ⟨views_eq.mirrors.reject fault ht, hc.stop⟩

/-- Whatever is read leads to such states. -/
def readings {rules : Rules} (hc : Course rules.limit T E) : Correspondence hc.steps ParseM ParseM rules rules :=
  hc.steps.same (.refl rules) (fun h => ⟨views_eq.mirrors_nested _ h.1, hc.nested h.2⟩)
    (fun bars _ _ h => ⟨views_eq.mirrors_withBars bars h.1, hc.withBars bars h.2⟩)
    ⟨fun _ _ hs => .exhausted hs, hc.stop⟩

variable {rules : Rules} {again : Production → ParseM Expr}

/-- A run that is read like itself is related to itself if it leads to such states. -/
theorem rel (hc : Course rules.limit T E) {m : ParseM α} (h : LeadsTo T E m) : hc.readings.Rel Eq m m :=
  ⟨mirrors_eq_iff.2 rfl, h⟩

theorem leadsTo_read (hc : Course rules.limit T E) (n : Nat) (p : Production) : LeadsTo T E (p.read rules n) :=
  (hc.readings.production rfl p).2

theorem leadsTo_grouping (hc : Course rules.limit T E) (h : ∀ p, LeadsTo T E (again p)) (allowList : Bool) (n : Nat) :
    LeadsTo T E (Read.grouping again allowList n) :=
  (hc.readings.grouping (fun p => hc.rel (h p)) allowList rfl).2

end Course

end

/-! ## Runs by steps -/

def stateAfter {α : Type} : EStateM.Result Halt ParserState α → ParserState
  | .ok _ t => t
  | .error _ t => t

/-- The run leaves every state by steps. -/
def Confined {α : Type} (limit : Nat) (m : ParseM α) : Prop := ∀ s, Walks limit s (stateAfter (m s))

section
variable {α β : Type} {limit : Nat}

theorem confined_iff {m : ParseM α} : Confined limit m ↔ LeadsTo (Walks limit) (Walks limit) m := by
  refine forall_congr' fun s => ?_
  cases m s <;> rfl

theorem Confined.bind {m : ParseM α} {f : α → ParseM β} (hm : Confined limit m) (hf : ∀ a, Confined limit (f a)) :
    Confined limit (m >>= f) :=
  confined_iff.2 ((confined_iff.1 hm).bind Walks.trans Walks.trans fun _ a _ _ => confined_iff.1 (hf a))

theorem confined_of_eq {m : ParseM α} (h : ∀ s, stateAfter (m s) = s) : Confined limit m := by
  intro s
  rw [h s]
  exact .refl s

theorem confined_pure (a : α) : Confined limit (pure a : ParseM α) := confined_of_eq fun _ => rfl

theorem confined_ite {c : Prop} [Decidable c] {m n : ParseM α} (hm : Confined limit m) (hn : Confined limit n) :
    Confined limit (if c then m else n) := by
  split
  · exact hm
  · exact hn

theorem confined_advance : Confined limit advance := fun s => (ParserState.Step.advance s).walks

theorem confined_enter : Confined limit (enter limit) := by
  intro s
  show Walks limit s (stateAfter ((if limit ≤ s.depth then _ else _ : ParseM Unit) s))
  by_cases h : limit ≤ s.depth
  · rw [if_pos h]
    exact .refl s
  · rw [if_neg h]
    exact (ParserState.Step.enter (Nat.lt_of_not_le h)).walks

theorem confined_leave : Confined limit leave := fun s => (ParserState.Step.leave s).walks

theorem confined_setBars (bars : Nat) : Confined limit (setBars bars) :=
  fun s => (ParserState.Step.setBars s bars).walks

theorem course_walks (limit : Nat) : Course limit (Walks limit) (Walks limit) where
  refl := Walks.refl
  trans := Walks.trans
  stop := Walks.refl
  trans_stop := Walks.trans
  advance s := (ParserState.Step.advance s).walks
  nested h := by
    refine confined_iff.1 (confined_enter.bind fun _ => (confined_iff.2 h).bind fun _ => ?_)
    exact confined_leave.bind fun _ => confined_pure _
  withBars bars h := by
    refine confined_iff.1 (Confined.bind (confined_of_eq fun _ => rfl) fun _ => (confined_setBars _).bind fun _ => ?_)
    exact (confined_iff.2 h).bind fun _ => (confined_setBars _).bind fun _ => confined_pure _

end

theorem confined_of_rel {α : Type} (rules : Rules) {V : α → α → Prop} {m : ParseM α}
    (h : (course_walks rules.limit).readings.Rel V m m) : Confined rules.limit m := confined_iff.2 h.2

theorem Confined.rel {α : Type} {rules : Rules} {m : ParseM α} (h : Confined rules.limit m) :
    (course_walks rules.limit).readings.Rel Eq m m := (course_walks rules.limit).rel (confined_iff.1 h)

/-- Under any rules, reading a production in any number of steps is confined. -/
theorem confined_read (rules : Rules) (n : Nat) (p : Production) : Confined rules.limit (p.read rules n) :=
  confined_iff.2 ((course_walks rules.limit).leadsTo_read n p)

end TexFormula
