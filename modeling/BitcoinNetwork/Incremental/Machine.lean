import Mathlib.Data.List.Basic
import Mathlib.Data.List.Infix
import Mathlib.Order.Basic

/-!
# Machines that consume a stream as it arrives

A machine is offered the symbols it has not consumed. It waits for more,
consumes some of them, finishes or fails. `Runs` takes a machine as far as the
offered symbols allow, and `Feeds` drives it over successive pieces, with the
unconsumed tail of one piece offered again in front of the next. A `Resumable`
machine may consume whatever part of a long run has arrived, yet the pieces
of a stream give it the outcome of the whole stream (`Resumable.feeds_runs`).
-/

namespace Incremental
variable {β σ ο ε : Type}

/-- What a machine does with the symbols offered. -/
inductive Step (σ ο ε : Type) where
  | wait
  | next (state : σ) (size : ℕ) (out : List ο)
  | done
  | fail (error : ε)

/-- How a run ends: for want of symbols, finished before the rest, or failed. -/
inductive Result (β σ ε : Type) where
  | waiting (state : σ) (rest : List β)
  | done (state : σ) (rest : List β)
  | failed (error : ε)

/-- The result of a run with more symbols behind those it was offered. -/
def Result.extend (x : List β) : Result β σ ε → Result β σ ε
  | .waiting s rest => .waiting s (rest ++ x)
  | .done s rest => .done s (rest ++ x)
  | .failed e => .failed e

/-- The symbols a result leaves. -/
def Result.rest : Result β σ ε → List β
  | .waiting _ rest => rest
  | .done _ rest => rest
  | .failed _ => []

/-- The machine takes every step the offered symbols allow. -/
inductive Runs (step : σ → List β → Step σ ο ε) :
    σ → List β → List ο → Result β σ ε → Prop where
  | wait {s d} (h : step s d = .wait) : Runs step s d [] (.waiting s d)
  | done {s d} (h : step s d = .done) : Runs step s d [] (.done s d)
  | fail {s d e} (h : step s d = .fail e) : Runs step s d [] (.failed e)
  | next {s d s' n out outs r} (h : step s d = .next s' n out)
      (tail : Runs step s' (d.drop n) outs r) : Runs step s d (out ++ outs) r

/-- The machine takes some of the steps the offered symbols allow. -/
inductive Reaches (step : σ → List β → Step σ ο ε) :
    σ → List β → List ο → σ → List β → Prop where
  | refl {s d} : Reaches step s d [] s d
  | next {s d s' n out outs s'' rest} (h : step s d = .next s' n out)
      (tail : Reaches step s' (d.drop n) outs s'' rest) : Reaches step s d (out ++ outs) s'' rest

/-- A run that is not waiting at the end of its symbols. -/
def Result.Final : Result β σ ε → Prop
  | .waiting .. => False
  | .done .. => True
  | .failed _ => True

/-- The machine is driven over the pieces that arrive behind the symbols `d`. -/
inductive Feeds (step : σ → List β → Step σ ο ε) :
    σ → List β → List (List β) → List ο → Result β σ ε → Prop where
  | last {s d outs r} (h : Runs step s d outs r) : Feeds step s d [] outs r
  | final {s d outs r} (pieces : List (List β)) (h : Runs step s d outs r) (hr : r.Final) :
      Feeds step s d pieces outs (r.extend pieces.flatten)
  | more {s d s' rest piece pieces outs outs' r} (h : Runs step s d outs (.waiting s' rest))
      (tail : Feeds step s' (rest ++ piece) pieces outs' r) :
      Feeds step s d (piece :: pieces) (outs ++ outs') r

/-- Every step consumes what it was offered, a finished or failed machine stays
so, and a step is not undone by later symbols: either they do not change it,
or it took all there was and the longer step is the two steps in one. -/
structure Resumable (Inv : σ → Prop) (step : σ → List β → Step σ ο ε) : Prop where
  progress : ∀ {s d s' n out}, Inv s → step s d = .next s' n out → 0 < n ∧ n ≤ d.length
  preserve : ∀ {s d s' n out}, Inv s → step s d = .next s' n out → Inv s'
  done_append : ∀ {s d}, Inv s → step s d = .done → ∀ x, step s (d ++ x) = .done
  fail_append : ∀ {s d e}, Inv s → step s d = .fail e → ∀ x, step s (d ++ x) = .fail e
  next_append : ∀ {s d s' n out}, Inv s → step s d = .next s' n out → ∀ x,
    step s (d ++ x) = .next s' n out ∨
    (n = d.length ∧ out = [] ∧
      ((∃ s'' m out', step s' x = .next s'' m out' ∧
          step s (d ++ x) = .next s'' (n + m) out') ∨
        (∃ e, step s' x = .fail e ∧ step s (d ++ x) = .fail e)))

theorem Runs.det {step : σ → List β → Step σ ο ε} {s : σ} {d : List β} {o o' : List ο}
    {r r' : Result β σ ε} (h : Runs step s d o r) (h' : Runs step s d o' r') :
    o = o' ∧ r = r' := by
  induction h generalizing o' r' with
  | wait h => cases h' <;> simp_all
  | done h => cases h' <;> simp_all
  | fail h => cases h' <;> simp_all
  | next h _ ih =>
    cases h' with
    | wait h' => rw [h] at h'; cases h'
    | done h' => rw [h] at h'; cases h'
    | fail h' => rw [h] at h'; cases h'
    | next h' t' =>
      rw [h] at h'
      cases h'
      obtain ⟨ho, hr⟩ := ih t'
      exact ⟨by rw [ho], hr⟩

namespace Reaches
variable {step : σ → List β → Step σ ο ε} {s s' s'' : σ} {d rest rest' : List β} {o o' : List ο}

theorem single {n : ℕ} {out : List ο} (h : step s d = .next s' n out) :
    Reaches step s d out s' (d.drop n) := by
  have hr := Reaches.next h .refl
  rwa [List.append_nil] at hr

theorem trans (h : Reaches step s d o s' rest) (h' : Reaches step s' rest o' s'' rest') :
    Reaches step s d (o ++ o') s'' rest' := by
  induction h with
  | refl => exact h'
  | next hs _ ih =>
    rw [List.append_assoc]
    exact .next hs (ih h')

theorem runs {r : Result β σ ε} (h : Reaches step s d o s' rest) (hr : Runs step s' rest o' r) :
    Runs step s d (o ++ o') r := by
  induction h with
  | refl => exact hr
  | next hs _ ih =>
    rw [List.append_assoc]
    exact .next hs (ih hr)

theorem waiting (h : Reaches step s d o s' rest) (hw : step s' rest = .wait) :
    Runs step s d o (.waiting s' rest) := by
  have hr := h.runs (.wait hw)
  rwa [List.append_nil] at hr

/-- A run passes through what is reached. -/
theorem split {o'' : List ο} {r : Result β σ ε} (h : Reaches step s d o s' rest)
    (hr : Runs step s d o'' r) : ∃ o', o'' = o ++ o' ∧ Runs step s' rest o' r := by
  induction h generalizing o'' with
  | refl => exact ⟨o'', rfl, hr⟩
  | next hs _ ih =>
    cases hr with
    | wait h' => rw [hs] at h'; cases h'
    | done h' => rw [hs] at h'; cases h'
    | fail h' => rw [hs] at h'; cases h'
    | next h' tail =>
      rw [hs] at h'
      cases h'
      obtain ⟨o', rfl, htail⟩ := ih tail
      exact ⟨o', (List.append_assoc ..).symm, htail⟩

theorem suffix (h : Reaches step s d o s' rest) : rest <:+ d := by
  induction h with
  | refl => exact List.suffix_refl _
  | next _ _ ih => exact ih.trans (List.drop_suffix _ _)

/-- What every step keeps is kept. -/
theorem keeps {P : σ → Prop} (hp : ∀ {s d s' n out}, P s → step s d = .next s' n out → P s')
    (h : Reaches step s d o s' rest) (hs : P s) : P s' := by
  induction h with
  | refl => exact hs
  | next hstep _ ih => exact ih (hp hs hstep)

/-- A machine that waits reaches nothing else. -/
theorem eq_of_wait (hw : step s d = .wait) (h : Reaches step s d o s' rest) :
    s' = s ∧ rest = d := by
  cases h with
  | refl => exact ⟨rfl, rfl⟩
  | next hs _ => rw [hw] at hs; cases hs

end Reaches

theorem Runs.reaches {step : σ → List β → Step σ ο ε} {s s' : σ} {d rest : List β}
    {o : List ο} (h : Runs step s d o (.waiting s' rest)) : Reaches step s d o s' rest := by
  generalize hw : Result.waiting s' rest = w at h
  induction h with
  | wait h => cases hw; exact .refl
  | done h => cases hw
  | fail h => cases hw
  | next hs _ ih => exact .next hs (ih hw)

theorem Runs.wait_of_waiting {step : σ → List β → Step σ ο ε} {s s' : σ} {d rest : List β}
    {o : List ο} (h : Runs step s d o (.waiting s' rest)) : step s' rest = .wait := by
  generalize hw : Result.waiting s' rest = w at h
  induction h with
  | wait h => cases hw; exact h
  | done h => cases hw
  | fail h => cases hw
  | next _ _ ih => exact ih hw

theorem Runs.done_of_done {step : σ → List β → Step σ ο ε} {s s' : σ} {d rest : List β}
    {o : List ο} (h : Runs step s d o (.done s' rest)) : step s' rest = .done := by
  generalize hw : Result.done s' rest = w at h
  induction h with
  | wait h => cases hw
  | done h => cases hw; exact h
  | fail h => cases hw
  | next _ _ ih => exact ih hw

theorem Runs.rest_length_le {step : σ → List β → Step σ ο ε} {s : σ} {d : List β} {o : List ο}
    {r : Result β σ ε} (h : Runs step s d o r) : r.rest.length ≤ d.length := by
  induction h with
  | wait h => exact le_rfl
  | done h => exact le_rfl
  | fail h => exact Nat.zero_le _
  | next _ _ ih =>
    rw [List.length_drop] at ih
    omega

namespace Resumable
variable {Inv : σ → Prop} {step : σ → List β → Step σ ο ε}

/-- A step on the first symbols, and a run over what it left with more behind,
make a run over all of them. -/
theorem absorb (hs : Resumable Inv step) {s s' : σ} {d x : List β} {n : ℕ} {out outs : List ο}
    {r : Result β σ ε} (hi : Inv s) (h : step s d = .next s' n out)
    (tail : Runs step s' (d.drop n ++ x) outs r) : Runs step s (d ++ x) (out ++ outs) r := by
  have hn := (hs.progress hi h).2
  rcases hs.next_append hi h x with hx | ⟨hlen, hout, hx⟩
  · refine .next hx ?_
    rwa [List.drop_append_of_le_length hn]
  · have hdrop : d.drop n ++ x = x := by rw [hlen, List.drop_length, List.nil_append]
    rw [hdrop] at tail
    subst hout
    rcases hx with ⟨s'', m, out', hm, hlong⟩ | ⟨e, he, hlong⟩
    · cases tail with
      | wait h' => rw [hm] at h'; cases h'
      | done h' => rw [hm] at h'; cases h'
      | fail h' => rw [hm] at h'; cases h'
      | next h' tail' =>
        rw [hm] at h'
        cases h'
        rw [List.nil_append]
        refine .next hlong ?_
        rwa [hlen, List.drop_length_add_append]
    · cases tail with
      | wait h' => rw [he] at h'; cases h'
      | done h' => rw [he] at h'; cases h'
      | fail h' =>
        rw [he] at h'
        cases h'
        exact .fail hlong
      | next h' _ => rw [he] at h'; cases h'

/-- A waiting run is resumed by the symbols that arrive behind it. -/
theorem resume (hs : Resumable Inv step) {s s' : σ} {d rest x : List β} {o o' : List ο}
    {r : Result β σ ε} (hi : Inv s) (h : Runs step s d o (.waiting s' rest))
    (tail : Runs step s' (rest ++ x) o' r) : Runs step s (d ++ x) (o ++ o') r := by
  generalize hw : Result.waiting s' rest = w at h
  induction h with
  | wait h => cases hw; exact tail
  | done h => cases hw
  | fail h => cases hw
  | next h _ ih =>
    rw [List.append_assoc]
    exact hs.absorb hi h (ih (hs.preserve hi h) hw)

/-- A run that finished or failed is not changed by later symbols. -/
theorem extend (hs : Resumable Inv step) {s : σ} {d : List β} {o : List ο} {r : Result β σ ε}
    (hi : Inv s) (h : Runs step s d o r) (hr : r.Final) (x : List β) :
    Runs step s (d ++ x) o (r.extend x) := by
  induction h with
  | wait h => exact hr.elim
  | done h => exact .done (hs.done_append hi h x)
  | fail h => exact .fail (hs.fail_append hi h x)
  | next h _ ih => exact hs.absorb hi h (ih (hs.preserve hi h) hr)

theorem inv_waiting (hs : Resumable Inv step) {s s' : σ} {d rest : List β} {o : List ο}
    (hi : Inv s) (h : Runs step s d o (.waiting s' rest)) : Inv s' := by
  generalize hw : Result.waiting s' rest = w at h
  induction h with
  | wait h => cases hw; exact hi
  | done h => cases hw
  | fail h => cases hw
  | next h _ ih => exact ih (hs.preserve hi h) hw

/-- The pieces of a stream give the outcome of the whole stream. -/
theorem feeds_runs (hs : Resumable Inv step) {s : σ} {d : List β} {pieces : List (List β)}
    {o : List ο} {r : Result β σ ε} (hi : Inv s) (h : Feeds step s d pieces o r) :
    Runs step s (d ++ pieces.flatten) o r := by
  induction h with
  | last h => simpa only [List.flatten_nil, List.append_nil] using h
  | final pieces h hr => exact hs.extend hi h hr _
  | more h _ ih =>
    have htail := ih (hs.inv_waiting hi h)
    rw [List.append_assoc] at htail
    exact hs.resume hi h htail

/-- A machine that consumes comes to a result on every text. -/
theorem total (hs : Resumable Inv step) {s : σ} (hi : Inv s) (d : List β) :
    ∃ o r, Runs step s d o r := by
  induction hd : d.length using Nat.strongRecOn generalizing s d with
  | _ k ih =>
    cases h : step s d with
    | wait => exact ⟨_, _, .wait h⟩
    | done => exact ⟨_, _, .done h⟩
    | fail e => exact ⟨_, _, .fail h⟩
    | next s' n out =>
      obtain ⟨hpos, hle⟩ := hs.progress hi h
      obtain ⟨o, r, hr⟩ := ih (d.drop n).length (by rw [List.length_drop]; omega)
        (hs.preserve hi h) (d.drop n) rfl
      exact ⟨_, _, .next h hr⟩

end Resumable

/-! ### Promptness -/

/-- A step that leaves a symbol of those offered does not need the later ones. -/
structure Prompt (Inv : σ → Prop) (step : σ → List β → Step σ ο ε) : Prop where
  preserve : ∀ {s d s' n out}, Inv s → step s d = .next s' n out → Inv s'
  take : ∀ {s d x s' n out}, Inv s → step s (d ++ x) = .next s' n out → n < d.length →
    step s d = .next s' n out

/-- What is reached with symbols to spare is reached without those behind them. -/
theorem Prompt.reaches {Inv : σ → Prop} {step : σ → List β → Step σ ο ε} (hp : Prompt Inv step)
    {s s' : σ} {d rest x : List β} {o : List ο} (hi : Inv s) (hrest : rest ≠ [])
    (h : Reaches step s (d ++ x) o s' (rest ++ x)) : Reaches step s d o s' rest := by
  generalize hd : d ++ x = dx at h
  generalize hr : rest ++ x = rx at h
  induction h generalizing d with
  | refl =>
    rw [← hd, List.append_cancel_right_eq] at hr
    rw [hr]
    exact .refl
  | @next s dx s' n out outs s'' rx hs tail ih =>
    subst hd hr
    have hle := tail.suffix.length_le
    have hpos := List.length_pos_of_ne_nil hrest
    simp only [List.length_append, List.length_drop] at hle
    have hn : n < d.length := by omega
    refine .next (hp.take hi hs hn) (ih (hp.preserve hi hs) ?_ rfl)
    rw [List.drop_append_of_le_length hn.le]

end Incremental
