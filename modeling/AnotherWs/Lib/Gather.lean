/-
Module: AnotherWs.Lib.Gather
Purpose: A buffer in which pieces are gathered and handed out. Handing out does not empty it; only a
  piece that starts over does. Which pieces an output holds is found by tagging the elements.
Trusted boundary: none
Main exports: Step, outputs, outputs_map, tagFrom, tagFrom_map, NeverRejoined, outputs_disjoint,
  outputs_meet
-/
import Mathlib.Data.List.Basic
import Mathlib.Data.List.Nodup

namespace Gather

variable {α β : Type*}

/-- What a piece does. -/
inductive Step (α : Type*) where
  /-- It joins the buffer, and the last one hands the buffer out. -/
  | join (last : Bool) (xs : List α)
  /-- It starts the buffer over. -/
  | start (xs : List α)
  /-- It is handed out by itself. -/
  | whole (xs : List α)
  /-- It is left alone. -/
  | skip (xs : List α)

namespace Step

/-- The elements of a piece. -/
def content : Step α → List α
  | join _ xs | start xs | whole xs | skip xs => xs

/-- The same piece with other elements. -/
def refill (ys : List β) : Step α → Step β
  | join last _ => join last ys
  | start _ => start ys
  | whole _ => whole ys
  | skip _ => skip ys

/-- Change every element. -/
def map (f : α → β) (step : Step α) : Step β := step.refill (step.content.map f)

/-- A piece that hands the buffer out. -/
def Ends : Step α → Prop
  | join last _ => last = true
  | _ => False

/-- A piece that starts the buffer over. -/
def Begins : Step α → Prop
  | start _ => True
  | _ => False

@[simp] theorem content_refill (ys : List β) (step : Step α) : (step.refill ys).content = ys := by
  cases step <;> rfl

@[simp] theorem ends_refill (ys : List β) (step : Step α) : (step.refill ys).Ends ↔ step.Ends := by
  cases step <;> rfl

@[simp] theorem begins_refill (ys : List β) (step : Step α) :
    (step.refill ys).Begins ↔ step.Begins := by
  cases step <;> rfl

theorem refill_refill {γ : Type*} (ys : List β) (zs : List γ) (step : Step α) :
    (step.refill ys).refill zs = step.refill zs := by
  cases step <;> rfl

@[simp] theorem refill_content (step : Step α) : step.refill step.content = step := by
  cases step <;> rfl

end Step

/-- Everything that is handed out, when the buffer begins with `buf`. -/
def outputs : List α → List (Step α) → List (List α)
  | _, [] => []
  | buf, .join last xs :: steps =>
      (if last then [buf ++ xs] else []) ++ outputs (buf ++ xs) steps
  | _, .start xs :: steps => outputs xs steps
  | buf, .whole xs :: steps => xs :: outputs buf steps
  | buf, .skip _ :: steps => outputs buf steps

/-- What the buffer holds in the end. -/
def buffer : List α → List (Step α) → List α
  | buf, [] => buf
  | buf, .join _ xs :: steps => buffer (buf ++ xs) steps
  | _, .start xs :: steps => buffer xs steps
  | buf, .whole _ :: steps => buffer buf steps
  | buf, .skip _ :: steps => buffer buf steps

theorem outputs_append (buf : List α) (first second : List (Step α)) :
    outputs buf (first ++ second) = outputs buf first ++ outputs (buffer buf first) second := by
  induction first generalizing buf with
  | nil => rfl
  | cons step steps ih => cases step <;> simp [outputs, buffer, ih]

/-- The elements do not decide what happens. -/
theorem outputs_map (f : α → β) (buf : List α) (steps : List (Step α)) :
    outputs (buf.map f) (steps.map (Step.map f)) = (outputs buf steps).map (List.map f) := by
  induction steps generalizing buf with
  | nil => rfl
  | cons step steps ih =>
      cases step with
      | join last xs =>
          have hnext := ih (buf ++ xs)
          rw [List.map_append] at hnext
          cases last <;> simp [outputs, Step.map, Step.refill, Step.content, hnext]
      | start xs => exact ih xs
      | whole xs =>
          rw [List.map_cons, outputs, List.map_cons, ← ih buf]
          rfl
      | skip xs => exact ih buf

/-! ### Tags -/

/-- The piece `i` with every element replaced by its place. -/
def Step.tag (i : Nat) (step : Step α) : Step (Nat × Nat) :=
  step.refill ((List.range step.content.length).map (Prod.mk i))

/-- Tagged pieces, numbered from `i`. -/
def tagFrom : Nat → List (Step α) → List (Step (Nat × Nat))
  | _, [] => []
  | i, step :: steps => step.tag i :: tagFrom (i + 1) steps

/-- Reading the tags gives the pieces back. -/
theorem tagFrom_map {i : Nat} {steps : List (Step α)} {read : Nat × Nat → α}
    (reads : ∀ k step, steps[k]? = some step →
      ∀ o (inside : o < step.content.length), read (i + k, o) = step.content[o]) :
    (tagFrom i steps).map (Step.map read) = steps := by
  induction steps generalizing i with
  | nil => rfl
  | cons step steps ih =>
      have hfirst := reads 0 step rfl
      have hrest := ih (i := i + 1) (by
        intro k next hnext o inside
        rw [← reads (k + 1) next hnext o inside]
        congr 2
        omega)
      have hcontent : ((List.range step.content.length).map (Prod.mk i)).map read = step.content := by
        apply List.ext_getElem
        · simp
        · intro o _ inside
          simpa using hfirst o inside
      rw [tagFrom, List.map_cons, hrest, Step.map, Step.tag, Step.content_refill, hcontent,
        Step.refill_refill, Step.refill_content]

/-- Only the shape of the pieces shows in the tags. -/
theorem tagFrom_congr {i : Nat} {steps : List (Step α)} {others : List (Step β)}
    (same : List.Forall₂ (fun step other => step.tag 0 = other.tag 0) steps others) :
    tagFrom i steps = tagFrom i others := by
  induction same generalizing i with
  | nil => rfl
  | @cons step other steps others hshape _ ih =>
      have htag : step.tag i = other.tag i := by
        have hcontent := congrArg Step.content hshape
        rw [Step.tag, Step.content_refill, Step.tag, Step.content_refill] at hcontent
        have hlen : step.content.length = other.content.length := by
          simpa using congrArg List.length hcontent
        have hkind := congrArg (Step.refill ((List.range step.content.length).map (Prod.mk i))) hshape
        rw [Step.tag, Step.refill_refill, Step.tag, Step.refill_refill] at hkind
        rw [Step.tag, hkind, hlen]
        rfl
      rw [tagFrom, tagFrom, htag, ih]

theorem tagFrom_append (i : Nat) (first second : List (Step α)) :
    tagFrom i (first ++ second) = tagFrom i first ++ tagFrom (i + first.length) second := by
  induction first generalizing i with
  | nil => rfl
  | cons step steps ih =>
      rw [List.cons_append, tagFrom, tagFrom, ih, List.cons_append, List.length_cons,
        Nat.add_right_comm, Nat.add_assoc]

theorem mem_tagFrom {i : Nat} {steps : List (Step α)} {at_ : Nat × Nat}
    (member : at_ ∈ (tagFrom i steps).flatMap Step.content) : i ≤ at_.1 := by
  induction steps generalizing i with
  | nil => cases member
  | cons step steps ih =>
      rw [tagFrom, List.flatMap_cons, List.mem_append] at member
      rcases member with hfirst | hrest
      · rw [Step.tag, Step.content_refill] at hfirst
        obtain ⟨o, -, rfl⟩ := List.mem_map.mp hfirst
        exact Nat.le_refl _
      · exact Nat.le_of_succ_le (ih hrest)

/-- No two elements have the same tag. -/
theorem nodup_tagFrom (i : Nat) (steps : List (Step α)) :
    ((tagFrom i steps).flatMap Step.content).Nodup := by
  induction steps generalizing i with
  | nil => exact List.nodup_nil
  | cons step steps ih =>
      rw [tagFrom, List.flatMap_cons, List.nodup_append']
      refine ⟨?_, ih (i + 1), ?_⟩
      · rw [Step.tag, Step.content_refill]
        exact List.nodup_range.map fun a b hab => (Prod.mk.inj hab).2
      · intro at_ hfirst hrest
        have hlater := mem_tagFrom hrest
        rw [Step.tag, Step.content_refill] at hfirst
        obtain ⟨o, -, rfl⟩ := List.mem_map.mp hfirst
        omega

/-! ### When outputs overlap -/

/-- Between two pieces that hand the buffer out there is one that starts it over. -/
def NeverRejoined (steps : List (Step α)) : Prop :=
  ∀ before first between second after, steps = before ++ first :: between ++ second :: after →
    first.Ends → second.Ends → ∃ step ∈ between, step.Begins

/-- The same, read from the front: `stale` tells whether the buffer has been handed out. -/
def Once : Bool → List (Step α) → Prop
  | _, [] => True
  | stale, .join true _ :: steps => stale = false ∧ Once true steps
  | _, .start _ :: steps => Once false steps
  | stale, _ :: steps => Once stale steps

theorem once_of_neverRejoined {steps : List (Step α)} (never : NeverRejoined steps) {stale : Bool}
    (first : stale = true → ∀ between second after, steps = between ++ second :: after →
      second.Ends → ∃ step ∈ between, step.Begins) : Once stale steps := by
  induction steps generalizing stale with
  | nil => trivial
  | cons step steps ih =>
      have hnever : NeverRejoined steps := by
        intro before one between two after hsplit
        exact never (step :: before) one between two after (by rw [hsplit]; simp)
      -- a piece that does not start over hands the obligation on
      have hpass : ¬ step.Begins → stale = true → ∀ between second after,
          steps = between ++ second :: after → second.Ends → ∃ step ∈ between, step.Begins := by
        intro hkeeps hstale between second after hsplit hends
        obtain ⟨found, hmem, hbegins⟩ :=
          first hstale (step :: between) second after (by rw [hsplit]; rfl) hends
        rcases List.mem_cons.mp hmem with rfl | hmem
        · exact absurd hbegins hkeeps
        · exact ⟨found, hmem, hbegins⟩
      cases step with
      | join last xs =>
          cases last with
          | true =>
              refine ⟨?_, ih hnever fun _ between second after hsplit hends =>
                never [] (.join true xs) between second after (by rw [hsplit]; rfl) rfl hends⟩
              by_contra hstale
              obtain ⟨found, hmem, -⟩ :=
                first (by simpa using hstale) [] (.join true xs) steps rfl rfl
              cases hmem
          | false => exact ih hnever (hpass id)
      | start xs => exact ih hnever nofun
      | whole xs => exact ih hnever (hpass id)
      | skip xs => exact ih hnever (hpass id)

/-- An output holds elements of the buffer and of the pieces. -/
theorem mem_outputs {buf : List α} {steps : List (Step α)} {out : List α} {x : α}
    (output : out ∈ outputs buf steps) (member : x ∈ out) :
    x ∈ buf ∨ x ∈ steps.flatMap Step.content := by
  induction steps generalizing buf with
  | nil => cases output
  | cons step steps ih =>
      rw [List.flatMap_cons, List.mem_append]
      cases step with
      | join last xs =>
          rw [outputs, List.mem_append] at output
          have hjoined : x ∈ buf ++ xs → x ∈ buf ∨ x ∈ xs := List.mem_append.mp
          rcases output with hnow | hlater
          · cases last with
            | false => cases hnow
            | true =>
                rw [if_pos rfl, List.mem_singleton] at hnow
                rw [hnow] at member
                exact (hjoined member).imp_right Or.inl
          · rcases ih hlater with hbuf | hsteps
            · exact (hjoined hbuf).imp_right Or.inl
            · exact Or.inr (Or.inr hsteps)
      | start xs =>
          rcases ih output with hbuf | hsteps
          · exact Or.inr (Or.inl hbuf)
          · exact Or.inr (Or.inr hsteps)
      | whole xs =>
          rcases List.mem_cons.mp output with rfl | hlater
          · exact Or.inr (Or.inl member)
          · exact (ih hlater).imp_right Or.inr
      | skip xs => exact (ih output).imp_right Or.inr

/-- What was handed out before does not come again. -/
theorem outputs_avoid {buf : List α} {steps : List (Step α)} (once : Once true steps)
    (distinct : (buf ++ steps.flatMap Step.content).Nodup) :
    ∀ out ∈ outputs buf steps, out.Disjoint buf := by
  induction steps generalizing buf with
  | nil => exact nofun
  | cons step steps ih =>
      rw [List.flatMap_cons] at distinct
      have hdistinct := distinct
      rw [List.nodup_append'] at hdistinct
      obtain ⟨hbuf, hrest, hdisjoint⟩ := hdistinct
      rw [List.nodup_append'] at hrest
      have hskip : (buf ++ steps.flatMap Step.content).Nodup :=
        List.nodup_append'.mpr ⟨hbuf, hrest.2.1, fun x hx hy =>
          hdisjoint hx (List.mem_append_right _ hy)⟩
      cases step with
      | join last xs =>
          cases last with
          | true => exact absurd once.1 (by decide)
          | false =>
              intro out hout
              rw [← List.append_assoc] at distinct
              intro x hx hmem
              exact ih once distinct out hout hx (List.mem_append_left _ hmem)
      | start xs =>
          intro out hout x hx hmem
          have hafter : out ∈ outputs xs steps := hout
          rcases mem_outputs hafter hx with hxs | hsteps
          · exact hdisjoint hmem (List.mem_append_left _ hxs)
          · exact hdisjoint hmem (List.mem_append_right _ hsteps)
      | whole xs =>
          intro out hout
          rcases List.mem_cons.mp hout with rfl | hlater
          · intro x hx hmem
            exact hdisjoint hmem (List.mem_append_left _ hx)
          · exact ih once hskip out hlater
      | skip xs => exact ih once hskip

/-- **Outputs are disjoint** when the buffer is never handed out twice. -/
theorem outputs_disjoint {buf : List α} {steps : List (Step α)} {stale : Bool}
    (once : Once stale steps) (distinct : (buf ++ steps.flatMap Step.content).Nodup) :
    (outputs buf steps).Pairwise List.Disjoint := by
  induction steps generalizing buf stale with
  | nil => exact List.Pairwise.nil
  | cons step steps ih =>
      rw [List.flatMap_cons] at distinct
      have hparts := distinct
      rw [List.nodup_append'] at hparts
      obtain ⟨hbuf, hrest, hdisjoint⟩ := hparts
      have hskip : (buf ++ steps.flatMap Step.content).Nodup :=
        List.nodup_append'.mpr ⟨hbuf, (List.nodup_append'.mp hrest).2.1, fun x hx hy =>
          hdisjoint hx (List.mem_append_right _ hy)⟩
      cases step with
      | join last xs =>
          rw [← List.append_assoc] at distinct
          cases last with
          | true =>
              apply List.pairwise_cons.mpr
              exact ⟨fun out hout x hx hmem => outputs_avoid once.2 distinct out hout hmem hx,
                ih once.2 distinct⟩
          | false => exact ih once distinct
      | start xs => exact ih once hrest
      | whole xs =>
          apply List.pairwise_cons.mpr
          refine ⟨?_, ih once hskip⟩
          intro out hout x hxs hx
          rcases mem_outputs hout hx with hmem | hsteps
          · exact hdisjoint hmem (List.mem_append_left _ hxs)
          · exact (List.nodup_append'.mp hrest).2.2 hxs hsteps
      | skip xs => exact ih once hskip

/-- What is in the buffer stays there until it is started over. -/
theorem mem_buffer {buf : List α} {steps : List (Step α)} {x : α} (member : x ∈ buf)
    (keeps : ∀ step ∈ steps, ¬ step.Begins) : x ∈ buffer buf steps := by
  induction steps generalizing buf with
  | nil => exact member
  | cons step steps ih =>
      rw [List.forall_mem_cons] at keeps
      cases step with
      | join last xs => exact ih (List.mem_append_left _ member) keeps.2
      | start xs => exact absurd trivial keeps.1
      | whole xs => exact ih member keeps.2
      | skip xs => exact ih member keeps.2

theorem once_tagFrom {stale : Bool} {i : Nat} {steps : List (Step α)} (once : Once stale steps) :
    Once stale (tagFrom i steps) := by
  induction steps generalizing stale i with
  | nil => trivial
  | cons step steps ih =>
      cases step with
      | join last xs =>
          cases last with
          | true => exact ⟨once.1, ih once.2⟩
          | false => exact ih once
      | start xs => exact ih once
      | whole xs => exact ih once
      | skip xs => exact ih once

theorem begins_tagFrom {i : Nat} {steps : List (Step α)} (keeps : ∀ step ∈ steps, ¬ step.Begins) :
    ∀ step ∈ tagFrom i steps, ¬ step.Begins := by
  induction steps generalizing i with
  | nil => exact nofun
  | cons step steps ih =>
      rw [List.forall_mem_cons] at keeps
      rw [tagFrom, List.forall_mem_cons]
      exact ⟨(Step.begins_refill _ step).not.mpr keeps.1, ih keeps.2⟩

/-- **Outputs meet** when the buffer is handed out twice: both hold the last piece of the first one. -/
theorem outputs_meet {buf : List α} {before between after : List (Step α)} {first second : Step α}
    {x : α} (ends : first.Ends) (member : x ∈ first.content) (again : second.Ends)
    (keeps : ∀ step ∈ between, ¬ step.Begins) :
    ∃ a out b out' c,
      outputs buf (before ++ first :: between ++ second :: after) = a ++ out :: b ++ out' :: c ∧
        x ∈ out ∧ x ∈ out' := by
  cases first with
  | join last xs =>
      cases ends
      cases second with
      | join last ys =>
          cases again
          have hfirst : x ∈ buffer buf before ++ xs := List.mem_append_right _ member
          refine ⟨outputs buf before, buffer buf before ++ xs,
            outputs (buffer buf before ++ xs) between, buffer (buffer buf before ++ xs) between ++ ys,
            outputs (buffer (buffer buf before ++ xs) between ++ ys) after, ?_, hfirst,
            List.mem_append_left ys (mem_buffer hfirst keeps)⟩
          rw [List.append_assoc, outputs_append, List.cons_append, outputs, outputs_append, outputs,
            if_pos rfl, if_pos rfl]
          simp only [List.cons_append, List.nil_append, List.append_assoc]
      | start ys | whole ys | skip ys => cases again
  | start xs | whole xs | skip xs => cases ends

/-- The same for tagged pieces: the first element of the piece stands in both. -/
theorem tagged_outputs_meet {before between after : List (Step α)} {first second : Step α}
    (ends : first.Ends) (nonempty : first.content ≠ []) (again : second.Ends)
    (keeps : ∀ step ∈ between, ¬ step.Begins) :
    ∃ a out b out' c,
      outputs [] (tagFrom 0 (before ++ first :: between ++ second :: after)) =
        a ++ out :: b ++ out' :: c ∧
        (before.length, 0) ∈ out ∧ (before.length, 0) ∈ out' := by
  have hmember : (before.length, 0) ∈ (first.tag before.length).content := by
    rw [Step.tag, Step.content_refill]
    apply List.mem_map_of_mem
    exact List.mem_range.mpr (List.length_pos_iff.mpr nonempty)
  have htags : tagFrom 0 (before ++ first :: between ++ second :: after) =
      tagFrom 0 before ++ first.tag before.length :: tagFrom (before.length + 1) between ++
        second.tag (before.length + (between.length + 1)) ::
          tagFrom (before.length + (between.length + 1) + 1) after := by
    rw [tagFrom_append, tagFrom_append, Nat.zero_add, Nat.zero_add, List.length_append,
      List.length_cons]
    rfl
  rw [htags]
  exact outputs_meet ((Step.ends_refill _ _).mpr ends) hmember ((Step.ends_refill _ _).mpr again)
    (begins_tagFrom keeps)

end Gather
