import Mathlib.Data.List.Basic
import Mathlib.Data.List.Infix

/-!
# Readers that are offered part of a stream

A scanner takes one symbol at a time. A reader takes what it likes of the symbols
it is offered, which are some of those it has not taken. A reader that `Follows` a
scanner has its outputs and its errors on every stream, whatever it is offered in
each turn (`Follows.drive_scan`).
-/

namespace Incremental
variable {β σ τ ο ε : Type}

/-! ### Scanners -/

/-- The outputs of a scanner over some symbols, and its state or the error it met. -/
def scan (step : σ → β → Except ε (σ × List ο)) : σ → List β → List ο × Except ε σ
  | s, [] => ([], .ok s)
  | s, b :: bs =>
    match step s b with
    | .error e => ([], .error e)
    | .ok (s', out) => (out ++ (scan step s' bs).1, (scan step s' bs).2)

section Scan
variable {step : σ → β → Except ε (σ × List ο)} {s s' : σ} {b : β} {bs cs : List β}
  {out : List ο} {e : ε}

@[simp] theorem scan_nil : scan step s [] = ([], .ok s) := rfl

theorem scan_ok (h : step s b = .ok (s', out)) :
    scan step s (b :: bs) = (out ++ (scan step s' bs).1, (scan step s' bs).2) := by
  rw [scan, h]

theorem scan_error (h : step s b = .error e) : scan step s (b :: bs) = ([], .error e) := by
  rw [scan, h]

/-- A step without output. -/
theorem scan_quiet (h : step s b = .ok (s', [])) : scan step s (b :: bs) = scan step s' bs := by
  rw [scan_ok h, List.nil_append]

theorem scan_single (h : step s b = .ok (s', out)) : scan step s [b] = (out, .ok s') := by
  rw [scan_ok h, scan_nil, List.append_nil]

theorem scan_append (h : scan step s bs = (out, .ok s')) :
    scan step s (bs ++ cs) = (out ++ (scan step s' cs).1, (scan step s' cs).2) := by
  induction bs generalizing s out with
  | nil =>
    cases h
    rfl
  | cons b bs ih =>
    rw [scan] at h
    rw [List.cons_append, scan]
    split at h
    · cases h
    · next s₁ out₁ _ =>
      obtain ⟨hout, hstate⟩ := Prod.mk.inj h
      have htail := @ih s₁ (scan step s₁ bs).1 (Prod.ext rfl hstate)
      rw [htail]
      subst hout
      rw [List.append_assoc]

theorem scan_append_error (h : scan step s bs = (out, .error e)) :
    scan step s (bs ++ cs) = (out, .error e) := by
  induction bs generalizing s out with
  | nil => cases h
  | cons b bs ih =>
    rw [scan] at h
    rw [List.cons_append, scan]
    split at h
    · exact h
    · next s₁ out₁ _ =>
      obtain ⟨hout, hstate⟩ := Prod.mk.inj h
      have htail := @ih s₁ (scan step s₁ bs).1 (Prod.ext rfl hstate)
      rw [htail]
      subst hout
      rfl

/-- A scan over symbols that leave the state as it is. -/
theorem scan_stays (h : ∀ b ∈ bs, step s b = .ok (s, [])) : scan step s bs = ([], .ok s) := by
  induction bs with
  | nil => rfl
  | cons b bs ih =>
    rw [scan_quiet (h b List.mem_cons_self)]
    exact ih fun c hc => h c (List.mem_cons_of_mem b hc)

/-- What each step keeps of the symbols taken and of the outputs, a scan keeps. -/
theorem scan_keeps {P : σ → List β → List ο → Prop}
    (hstep : ∀ {s taken outs b s' out}, P s taken outs → step s b = .ok (s', out) →
      P s' (taken ++ [b]) (outs ++ out))
    {taken : List β} {outs : List ο} (hp : P s taken outs) (h : scan step s bs = (out, .ok s')) :
    P s' (taken ++ bs) (outs ++ out) := by
  induction bs generalizing s taken outs out with
  | nil =>
    cases h
    rwa [List.append_nil, List.append_nil]
  | cons b bs ih =>
    rw [scan] at h
    split at h
    · cases h
    · next s₁ out₁ hone =>
      obtain ⟨hout, hstate⟩ := Prod.mk.inj h
      have htail := ih (hstep hp hone) (Prod.ext rfl hstate)
      rw [List.append_assoc, List.append_assoc, List.singleton_append] at htail
      rwa [← hout]

end Scan

/-! ### Readers -/

/-- What a reader makes of the symbols it is offered. -/
inductive Turn (τ ο ε : Type) where
  | took (state : τ) (size : ℕ) (out : List ο)
  | failed (error : ε)

/-- A reader on its way over a stream. -/
structure Drive (β τ ο ε : Type) where
  state : Except ε τ
  rest : List β
  outs : List ο

/-- The reader is offered as many of the symbols as are there. -/
def offer (turn : τ → List β → Turn τ ο ε) (d : Drive β τ ο ε) (count : ℕ) :
    Drive β τ ο ε :=
  match d.state, d.rest.take count with
  | .error _, _ => d
  | .ok _, [] => d
  | .ok t, b :: bs =>
    match turn t (b :: bs) with
    | .took t' size out => ⟨.ok t', d.rest.drop size, d.outs ++ out⟩
    | .failed e => ⟨.error e, d.rest, d.outs⟩

/-- The reader is offered so many symbols in each of its turns. -/
def drive (turn : τ → List β → Turn τ ο ε) (t : τ) (stream : List β) (offers : List ℕ) :
    Drive β τ ο ε :=
  offers.foldl (offer turn) ⟨.ok t, stream, []⟩

/-- The turns that a stream takes at most. -/
def Enough (stream : List β) (offers : List ℕ) : Prop :=
  (∀ count ∈ offers, 0 < count) ∧ stream.length ≤ offers.length

/-- The reader takes what the scanner takes, with its outputs, and fails where it
fails. The relation of their states may depend on what is left of the stream. -/
structure Follows (turn : τ → List β → Turn τ ο ε) (step : σ → β → Except ε (σ × List ο))
    (Rep : τ → σ → List β → Prop) : Prop where
  took : ∀ {t s data rest t' size out}, Rep t s (data ++ rest) → data ≠ [] →
    turn t data = .took t' size out → 0 < size ∧ size ≤ data.length ∧
      ∃ s', scan step s (data.take size) = (out, .ok s') ∧ Rep t' s' (data.drop size ++ rest)
  failed : ∀ {t s data rest e}, Rep t s (data ++ rest) → data ≠ [] →
    turn t data = .failed e → ∃ size, scan step s (data.take size) = ([], .error e)

section Drive
variable {turn : τ → List β → Turn τ ο ε} {step : σ → β → Except ε (σ × List ο)}
  {Rep : τ → σ → List β → Prop}

/-- What is so of a reader that follows a scanner over a stream, after each turn. -/
inductive Drive.Along (step : σ → β → Except ε (σ × List ο)) (Rep : τ → σ → List β → Prop)
    (s : σ) (stream : List β) : Drive β τ ο ε → Prop where
  | going {t s' taken rest outs} (hstream : stream = taken ++ rest)
      (hscan : scan step s taken = (outs, .ok s')) (hrep : Rep t s' rest) :
      Drive.Along step Rep s stream ⟨.ok t, rest, outs⟩
  | failed {e rest outs} (hscan : scan step s stream = (outs, .error e)) :
      Drive.Along step Rep s stream ⟨.error e, rest, outs⟩

theorem Follows.offer (hf : Follows turn step Rep) {s : σ} {stream : List β}
    {d : Drive β τ ο ε} (h : d.Along step Rep s stream) (count : ℕ) :
    (offer turn d count).Along step Rep s stream := by
  cases h with
  | failed hscan =>
    unfold Incremental.offer
    exact .failed hscan
  | @going t s' taken rest outs hstream hscan hrep =>
    unfold Incremental.offer
    cases hdata : rest.take count with
    | nil => exact .going hstream hscan hrep
    | cons b bs =>
      have hsplit : rest = (b :: bs) ++ rest.drop count := by
        rw [← hdata, List.take_append_drop]
      have hrep' := hrep
      rw [hsplit] at hrep'
      dsimp only
      split
      · next t' size out hturn =>
        obtain ⟨_, hle, s'', htake, hnext⟩ :=
          hf.took hrep' (List.cons_ne_nil b bs) hturn
        have hdrop : rest.drop size = (b :: bs).drop size ++ rest.drop count := by
          conv_lhs => rw [hsplit]
          exact List.drop_append_of_le_length hle
        have htaken : stream = (taken ++ (b :: bs).take size) ++ rest.drop size := by
          rw [hstream, hdrop, List.append_assoc, ← List.append_assoc ((b :: bs).take size),
            List.take_append_drop, ← hsplit]
        refine .going htaken ?_ (hdrop ▸ hnext)
        rw [scan_append hscan, htake]
      · next e hturn =>
        obtain ⟨size, htake⟩ := hf.failed hrep' (List.cons_ne_nil b bs) hturn
        refine .failed ?_
        have hrest : rest = (b :: bs).take size ++ ((b :: bs).drop size ++ rest.drop count) := by
          rw [← List.append_assoc, List.take_append_drop, ← hsplit]
        rw [hstream, scan_append hscan, hrest, scan_append_error htake, List.append_nil]

theorem Follows.foldl (hf : Follows turn step Rep) {s : σ} {stream : List β}
    (offers : List ℕ) {d : Drive β τ ο ε} (h : d.Along step Rep s stream) :
    (offers.foldl (Incremental.offer turn) d).Along step Rep s stream := by
  induction offers generalizing d with
  | nil => exact h
  | cons count offers ih => exact ih (hf.offer h count)

theorem foldl_error {e : ε} (offers : List ℕ) {d : Drive β τ ο ε} (h : d.state = .error e) :
    (offers.foldl (Incremental.offer turn) d).state = .error e := by
  induction offers generalizing d with
  | nil => exact h
  | cons count offers ih =>
    refine ih ?_
    unfold Incremental.offer
    rw [h]
    exact h

/-- A turn fails, or leaves less of the stream. -/
theorem Follows.offer_shrinks (hf : Follows turn step Rep) {s : σ} {stream : List β}
    {d : Drive β τ ο ε} (h : d.Along step Rep s stream) {count : ℕ} (hcount : 0 < count) :
    (Incremental.offer turn d count).rest.length ≤ d.rest.length - 1 ∨
      ∃ e, (Incremental.offer turn d count).state = .error e := by
  cases h with
  | failed _ => exact .inr ⟨_, rfl⟩
  | @going t s' taken rest outs _ _ hrep =>
    unfold Incremental.offer
    cases hdata : rest.take count with
    | nil =>
      have hlen := congrArg List.length hdata
      rw [List.length_take, List.length_nil] at hlen
      left
      show rest.length ≤ rest.length - 1
      omega
    | cons b bs =>
      have hsplit : rest = (b :: bs) ++ rest.drop count := by
        rw [← hdata, List.take_append_drop]
      dsimp only
      split
      · next t' size out hturn =>
        rw [hsplit] at hrep
        obtain ⟨hsize, _⟩ := hf.took hrep (List.cons_ne_nil b bs) hturn
        left
        show (rest.drop size).length ≤ _
        rw [List.length_drop]
        exact Nat.sub_le_sub_left hsize _
      · exact .inr ⟨_, rfl⟩

theorem Follows.progress (hf : Follows turn step Rep) {s : σ} {stream : List β}
    (offers : List ℕ) (hpos : ∀ count ∈ offers, 0 < count) {d : Drive β τ ο ε}
    (h : d.Along step Rep s stream) {t : τ}
    (hstate : (offers.foldl (Incremental.offer turn) d).state = .ok t) :
    (offers.foldl (Incremental.offer turn) d).rest.length ≤ d.rest.length - offers.length := by
  induction offers generalizing d with
  | nil => exact Nat.le_refl _
  | cons count offers ih =>
    have htail := ih (fun c hc => hpos c (List.mem_cons_of_mem _ hc)) (hf.offer h count) hstate
    rcases hf.offer_shrinks h (hpos count List.mem_cons_self) with hone | ⟨e, he⟩
    · rw [List.foldl_cons, List.length_cons]
      omega
    · rw [List.foldl_cons, foldl_error offers he] at hstate
      cases hstate

/-- The outputs and the state of a driven reader are those of the scan. -/
theorem Follows.drive_scan (hf : Follows turn step Rep) {t : τ} {s : σ} {stream : List β}
    (hrep : Rep t s stream) {offers : List ℕ} (henough : Enough stream offers) :
    (∃ t' s', (drive turn t stream offers).state = .ok t' ∧
      (drive turn t stream offers).rest = [] ∧ Rep t' s' [] ∧
      scan step s stream = ((drive turn t stream offers).outs, .ok s')) ∨
    (∃ e, (drive turn t stream offers).state = .error e ∧
      scan step s stream = ((drive turn t stream offers).outs, .error e)) := by
  have hstart : Drive.Along step Rep s stream (⟨.ok t, stream, []⟩ : Drive β τ ο ε) :=
    .going (List.nil_append stream).symm scan_nil hrep
  have halong := hf.foldl offers hstart
  have hprogress (t' : τ) := @Follows.progress _ _ _ _ _ _ _ _ hf _ _ offers henough.1 _ hstart t'
  unfold drive
  generalize offers.foldl (Incremental.offer turn) ⟨.ok t, stream, []⟩ = d at halong hprogress ⊢
  cases halong with
  | failed hscan => exact .inr ⟨_, rfl, hscan⟩
  | going hstream hscan hrep' =>
    have hlen := hprogress _ rfl
    have hrest := List.eq_nil_of_length_eq_zero (Nat.le_zero.mp (hlen.trans_eq
      (Nat.sub_eq_zero_of_le henough.2)))
    subst hrest
    rw [List.append_nil] at hstream
    subst hstream
    exact .inl ⟨_, _, rfl, rfl, hrep', hscan⟩

end Drive

end Incremental
