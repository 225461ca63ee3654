import Mathlib.Data.List.Basic
import Mathlib.Data.List.TakeWhile
import Mathlib.Order.Basic

/-!
# Elements parsed from the front of received text

An element parse is given every symbol received so far. It asks for more when
the text ends before the element does, fails at an error, or yields a value
and the text that follows it. A parse is `Stable` when symbols that arrive
later change neither a failure nor a value, so that a parse retried on longer
text is the parse of the whole text.
-/

namespace Incremental

/-- Outcome of an element parse on the text received so far. -/
inductive Outcome (β ε α : Type) where
  | more
  | fail (error : ε)
  | done (value : α) (rest : List β)
  deriving DecidableEq, Repr

/-- A parse of one element from the front of its text. -/
def Element (β ε α : Type) : Type := List β → Outcome β ε α

namespace Element
variable {β ε α γ σ : Type}

/-- Continue with the text that follows the first element. -/
def andThen (p : Element β ε α) (f : α → Element β ε γ) : Element β ε γ := fun d =>
  match p d with
  | .more => .more
  | .fail e => .fail e
  | .done a rest => f a rest

instance : Monad (Element β ε) where
  pure a := fun d => .done a d
  bind := andThen

def fail (e : ε) : Element β ε α := fun _ => .fail e

/-- The next symbol. -/
def item : Element β ε β
  | [] => .more
  | b :: rest => .done b rest

/-- The longest run of symbols of a class, which ends at a symbol outside it. -/
def scan (q : β → Bool) : Element β ε (List β) := fun d =>
  match d.dropWhile q with
  | [] => .more
  | b :: rest => .done (d.takeWhile q) (b :: rest)

/-- The next `n` symbols. -/
def exactly (n : ℕ) : Element β ε (List β) := fun d =>
  if d.length < n then .more else .done (d.take n) (d.drop n)

/-- The next `n` symbols, left in place. -/
def peek (n : ℕ) : Element β ε (List β) := fun d =>
  if d.length < n then .more else .done (d.take n) d

/-- At most `n` turns of a loop, each of which either continues or yields. -/
def loop (body : σ → Element β ε (σ ⊕ α)) : ℕ → σ → Element β ε α
  | 0, _ => fun _ => .more
  | n + 1, s => body s >>= fun
    | .inl s' => loop body n s'
    | .inr a => pure a

/-- A loop whose turns consume the text, so that its length bounds them. -/
def iterate (body : σ → Element β ε (σ ⊕ α)) (s : σ) : Element β ε α := fun d =>
  loop body (d.length + 1) s d

theorem pure_apply (a : α) (d : List β) : (pure a : Element β ε α) d = .done a d := rfl

theorem bind_apply (p : Element β ε α) (f : α → Element β ε γ) (d : List β) :
    (p >>= f) d = match p d with
      | .more => .more
      | .fail e => .fail e
      | .done a rest => f a rest := rfl

theorem bind_of_done {p : Element β ε α} {f : α → Element β ε γ} {d rest : List β} {a : α}
    (h : p d = .done a rest) : (p >>= f) d = f a rest := by
  rw [bind_apply, h]

theorem bind_eq_done {p : Element β ε α} {f : α → Element β ε γ} {d rest : List β} {c : γ}
    (h : (p >>= f) d = .done c rest) : ∃ a mid, p d = .done a mid ∧ f a mid = .done c rest := by
  rw [bind_apply] at h
  cases hp : p d with
  | more => simp only [hp] at h; cases h
  | fail e => simp only [hp] at h; cases h
  | done a mid => exact ⟨a, mid, rfl, by simpa only [hp] using h⟩

/-! ### Stability -/

/-- Later symbols change neither a failure nor a value, and what follows a
value is what followed it before. -/
structure Stable (p : Element β ε α) : Prop where
  fail_append : ∀ {d e}, p d = .fail e → ∀ x, p (d ++ x) = .fail e
  done_append : ∀ {d a rest}, p d = .done a rest → ∀ x, p (d ++ x) = .done a (rest ++ x)
  suffix : ∀ {d a rest}, p d = .done a rest → rest <:+ d

theorem Stable.pure (a : α) : Stable (Pure.pure a : Element β ε α) where
  fail_append h := by cases h
  done_append h x := by
    simp only [pure_apply, Outcome.done.injEq] at h ⊢
    exact ⟨h.1, by rw [h.2]⟩
  suffix h := by
    simp only [pure_apply, Outcome.done.injEq] at h
    exact h.2 ▸ List.suffix_refl _

theorem Stable.fail (e : ε) : Stable (Element.fail e : Element β ε α) where
  fail_append h _ := h
  done_append h := by cases h
  suffix h := by cases h

theorem Stable.bind {p : Element β ε α} {f : α → Element β ε γ} (hp : Stable p)
    (hf : ∀ a, Stable (f a)) : Stable (p >>= f) where
  fail_append {d e} h x := by
    rw [bind_apply] at h ⊢
    cases hd : p d with
    | more => simp only [hd] at h; cases h
    | fail e' =>
      simp only [hd] at h
      rw [hp.fail_append hd x]
      exact h
    | done a rest =>
      simp only [hd] at h
      rw [hp.done_append hd x]
      exact (hf a).fail_append h x
  done_append {d c rest} h x := by
    obtain ⟨a, mid, ha, hc⟩ := bind_eq_done h
    rw [bind_of_done (hp.done_append ha x)]
    exact (hf a).done_append hc x
  suffix {d c rest} h := by
    obtain ⟨a, mid, ha, hc⟩ := bind_eq_done h
    exact ((hf a).suffix hc).trans (hp.suffix ha)

theorem Stable.ite {c : Prop} [Decidable c] {p q : Element β ε α} (hp : Stable p)
    (hq : Stable q) : Stable (if c then p else q) := by
  split
  · exact hp
  · exact hq

theorem Stable.item : Stable (item : Element β ε β) where
  fail_append {d e} h := by cases d <;> cases h
  done_append {d a rest} h x := by
    cases d with
    | nil => cases h
    | cons b t =>
      simp only [Element.item, Outcome.done.injEq] at h
      simp only [Element.item, List.cons_append, h.1, h.2]
  suffix {d a rest} h := by
    cases d with
    | nil => cases h
    | cons b t =>
      simp only [Element.item, Outcome.done.injEq] at h
      exact h.2 ▸ List.suffix_cons b t

theorem scan_eq_done {q : β → Bool} {d run rest : List β}
    (h : (scan q : Element β ε _) d = .done run rest) :
    run = d.takeWhile q ∧ rest = d.dropWhile q ∧ rest ≠ [] := by
  unfold scan at h
  split at h
  · cases h
  · rename_i b t hb
    simp only [Outcome.done.injEq] at h
    exact ⟨h.1.symm, by rw [hb, h.2], by rw [← h.2]; exact List.cons_ne_nil b t⟩

theorem scan_append {q : β → Bool} {run : List β} {b : β} (rest : List β)
    (hr : ∀ c ∈ run, q c = true) (hb : q b = false) :
    (scan q : Element β ε _) (run ++ b :: rest) = .done run (b :: rest) := by
  have hdrop : (run ++ b :: rest).dropWhile q = b :: rest := by
    rw [List.dropWhile_append_of_pos hr, List.dropWhile_cons_of_neg (by simp [hb])]
  have htake : (run ++ b :: rest).takeWhile q = run := by
    rw [List.takeWhile_append_of_pos hr, List.takeWhile_cons_of_neg (by simp [hb]),
      List.append_nil]
  simp only [scan, hdrop, htake]

theorem scan_ne_fail {q : β → Bool} {d : List β} {e : ε} :
    (scan q : Element β ε _) d ≠ .fail e := by
  unfold scan
  split <;> exact nofun

theorem Stable.scan (q : β → Bool) : Stable (scan q : Element β ε _) where
  fail_append h := absurd h scan_ne_fail
  done_append {d run rest} h x := by
    obtain ⟨hrun, hrest, hne⟩ := scan_eq_done h
    obtain ⟨b, t, hbt⟩ := List.exists_cons_of_ne_nil hne
    have hb : q b = false := by
      have hhead := List.head?_dropWhile_not q d
      rw [← hrest, hbt] at hhead
      simpa using hhead
    have hd : d = run ++ b :: t := by
      rw [hrun, ← hbt, hrest, List.takeWhile_append_dropWhile]
    have hmem : ∀ c ∈ run, q c = true := fun c hc => by
      rw [hrun] at hc
      exact List.mem_takeWhile_imp hc
    rw [hbt, hd, List.append_assoc, List.cons_append, scan_append (t ++ x) hmem hb]
  suffix {d run rest} h := by
    rw [(scan_eq_done h).2.1]
    exact List.dropWhile_suffix q

theorem exactly_eq_done {n : ℕ} {d taken rest : List β}
    (h : (exactly n : Element β ε _) d = .done taken rest) :
    n ≤ d.length ∧ taken = d.take n ∧ rest = d.drop n := by
  unfold exactly at h
  split at h
  · cases h
  · simp only [Outcome.done.injEq] at h
    exact ⟨by omega, h.1.symm, h.2.symm⟩

theorem exactly_append {n : ℕ} {taken : List β} (hn : taken.length = n) (rest : List β) :
    (exactly n : Element β ε _) (taken ++ rest) = .done taken rest := by
  unfold exactly
  rw [if_neg (by rw [List.length_append]; omega), List.take_left' hn, List.drop_left' hn]

theorem Stable.exactly (n : ℕ) : Stable (exactly n : Element β ε _) where
  fail_append {d e} h := by unfold Element.exactly at h; split at h <;> cases h
  done_append {d taken rest} h x := by
    obtain ⟨hn, ht, hr⟩ := exactly_eq_done h
    have hlen : ¬(d ++ x).length < n := by simp only [List.length_append]; omega
    unfold Element.exactly
    rw [if_neg hlen, List.take_append_of_le_length hn, List.drop_append_of_le_length hn, ht, hr]
  suffix {d taken rest} h := by
    rw [(exactly_eq_done h).2.2]
    exact List.drop_suffix n d

theorem peek_eq_done {n : ℕ} {d taken rest : List β}
    (h : (peek n : Element β ε _) d = .done taken rest) :
    n ≤ d.length ∧ taken = d.take n ∧ rest = d := by
  unfold peek at h
  split at h
  · cases h
  · simp only [Outcome.done.injEq] at h
    exact ⟨by omega, h.1.symm, h.2.symm⟩

theorem Stable.peek (n : ℕ) : Stable (peek n : Element β ε _) where
  fail_append {d e} h := by unfold Element.peek at h; split at h <;> cases h
  done_append {d taken rest} h x := by
    obtain ⟨hn, ht, hr⟩ := peek_eq_done h
    have hlen : ¬(d ++ x).length < n := by simp only [List.length_append]; omega
    unfold Element.peek
    rw [if_neg hlen, List.take_append_of_le_length hn, ht, hr]
  suffix {d taken rest} h := by
    have hrest := (peek_eq_done h).2.2
    subst hrest
    exact List.suffix_refl rest

/-! ### Progress -/

/-- A value of the parse takes at least one symbol. -/
structure Consumes (p : Element β ε α) : Prop where
  shorter : ∀ {d a rest}, p d = .done a rest → rest.length < d.length

theorem Consumes.fail (e : ε) : Consumes (Element.fail e : Element β ε α) := ⟨nofun⟩

theorem Consumes.item : Consumes (item : Element β ε β) where
  shorter {d a rest} h := by
    cases d with
    | nil => cases h
    | cons b t =>
      simp only [Element.item, Outcome.done.injEq] at h
      rw [← h.2, List.length_cons]
      exact Nat.lt_succ_self _

theorem Consumes.exactly {n : ℕ} (hn : 0 < n) : Consumes (exactly n : Element β ε _) where
  shorter h := by
    obtain ⟨hle, _, rfl⟩ := exactly_eq_done h
    rw [List.length_drop]
    omega

theorem Consumes.bind_left {p : Element β ε α} {f : α → Element β ε γ} (hp : Consumes p)
    (hf : ∀ a, Stable (f a)) : Consumes (p >>= f) where
  shorter h := by
    obtain ⟨a, mid, ha, hc⟩ := bind_eq_done h
    exact lt_of_le_of_lt ((hf a).suffix hc).length_le (hp.shorter ha)

theorem Consumes.bind_right {p : Element β ε α} {f : α → Element β ε γ} (hp : Stable p)
    (hf : ∀ a, Consumes (f a)) : Consumes (p >>= f) where
  shorter h := by
    obtain ⟨a, mid, ha, hc⟩ := bind_eq_done h
    exact lt_of_lt_of_le ((hf a).shorter hc) (hp.suffix ha).length_le

theorem Consumes.ite {c : Prop} [Decidable c] {p q : Element β ε α} (hp : Consumes p)
    (hq : Consumes q) : Consumes (if c then p else q) := by
  split
  · exact hp
  · exact hq

/-! ### Promptness -/

/-- A stable parse that yields its value once one symbol behind it has arrived. -/
structure Prompt (p : Element β ε α) : Prop extends Stable p where
  take : ∀ {d x a rest}, p (d ++ x) = .done a (rest ++ x) → rest ≠ [] → p d = .done a rest

theorem Prompt.pure (a : α) : Prompt (Pure.pure a : Element β ε α) where
  toStable := Stable.pure a
  take h _ := by
    simp only [pure_apply, Outcome.done.injEq, List.append_cancel_right_eq] at h ⊢
    exact h

theorem Prompt.fail (e : ε) : Prompt (Element.fail e : Element β ε α) := ⟨Stable.fail e, nofun⟩

theorem Prompt.item : Prompt (item : Element β ε β) where
  toStable := Stable.item
  take {d x a rest} h hr := by
    cases d with
    | nil =>
      have hlen := Consumes.item.shorter h
      simp only [List.nil_append, List.length_append] at hlen
      omega
    | cons b t =>
      simp only [Element.item, List.cons_append, Outcome.done.injEq,
        List.append_cancel_right_eq] at h ⊢
      exact h

theorem Prompt.scan (q : β → Bool) : Prompt (scan q : Element β ε _) where
  toStable := Stable.scan q
  take {d x run rest} h hr := by
    obtain ⟨hrun, hrest, -⟩ := scan_eq_done h
    obtain ⟨b, t, rfl⟩ := List.exists_cons_of_ne_nil hr
    have hd : d ++ x = run ++ (b :: t) ++ x := by
      rw [List.append_assoc, hrun, hrest, List.takeWhile_append_dropWhile]
    rw [List.append_cancel_right_eq] at hd
    have hb : q b = false := by
      have hhead := List.head?_dropWhile_not q (d ++ x)
      rw [← hrest] at hhead
      simpa using hhead
    rw [hd]
    exact scan_append t (fun c hc => by rw [hrun] at hc; exact List.mem_takeWhile_imp hc) hb

theorem Prompt.exactly (n : ℕ) : Prompt (exactly n : Element β ε _) where
  toStable := Stable.exactly n
  take {d x taken rest} h hr := by
    obtain ⟨hle, htaken, hrest⟩ := exactly_eq_done h
    have hpos := List.length_pos_of_ne_nil hr
    have hlen := congrArg List.length hrest
    simp only [List.length_append, List.length_drop] at hle hlen
    have hn : n ≤ d.length := by omega
    rw [List.drop_append_of_le_length hn, List.append_cancel_right_eq] at hrest
    rw [List.take_append_of_le_length hn] at htaken
    unfold Element.exactly
    rw [if_neg (by omega), htaken, hrest]

theorem Prompt.bind {p : Element β ε α} {f : α → Element β ε γ} (hp : Prompt p)
    (hf : ∀ a, Prompt (f a)) : Prompt (p >>= f) where
  toStable := hp.toStable.bind fun a => (hf a).toStable
  take {d x c rest} h hr := by
    obtain ⟨a, mid, ha, hc⟩ := bind_eq_done h
    obtain ⟨m, hm⟩ := (hf a).suffix hc
    rw [← hm, ← List.append_assoc] at ha hc
    rw [bind_of_done (hp.take ha (by simp [hr]))]
    exact (hf a).take hc hr

/-- A peek is answered once the symbols behind the value make up its length. -/
theorem Prompt.peek_bind {n : ℕ} {f : List β → Element β ε γ} (hf : ∀ a, Prompt (f a))
    (hn : ∀ {d c rest}, (peek n >>= f) d = .done c rest → rest.length + n ≤ d.length + 1) :
    Prompt (peek n >>= f) where
  toStable := (Stable.peek n).bind fun a => (hf a).toStable
  take {d x c rest} h hr := by
    have hlen := hn h
    have hpos := List.length_pos_of_ne_nil hr
    simp only [List.length_append] at hlen
    obtain ⟨a, mid, ha, hc⟩ := bind_eq_done h
    obtain ⟨-, rfl, rfl⟩ := peek_eq_done ha
    have hd : n ≤ d.length := by omega
    rw [List.take_append_of_le_length hd] at hc
    rw [bind_apply, Element.peek, if_neg (by omega)]
    exact (hf _).take hc hr

theorem Prompt.peek_one_bind {f : List β → Element β ε γ} (hf : ∀ a, Prompt (f a)) :
    Prompt (peek 1 >>= f) :=
  .peek_bind hf fun h => by
    have hle := (((Stable.peek 1).bind fun a => (hf a).toStable).suffix h).length_le
    omega

theorem Prompt.ite {c : Prop} [Decidable c] {p q : Element β ε α} (hp : Prompt p)
    (hq : Prompt q) : Prompt (if c then p else q) := by
  split
  · exact hp
  · exact hq

/-! ### Loops -/

theorem Stable.loop {body : σ → Element β ε (σ ⊕ α)} (hb : ∀ s, Stable (body s)) (n : ℕ)
    (s : σ) : Stable (loop body n s) := by
  induction n generalizing s with
  | zero => exact ⟨nofun, nofun, nofun⟩
  | succ n ih =>
    refine (hb s).bind fun r => ?_
    cases r with
    | inl s' => exact ih s'
    | inr a => exact Stable.pure a

/-- A loop that came to an outcome comes to it in any greater number of turns. -/
theorem loop_mono {body : σ → Element β ε (σ ⊕ α)} {n : ℕ} {s : σ} {d : List β}
    {r : Outcome β ε α} (h : loop body n s d = r) (hr : r ≠ .more) (m : ℕ) (hm : n ≤ m) :
    loop body m s d = r := by
  induction n generalizing m s d with
  | zero => exact absurd h.symm hr
  | succ n ih =>
    obtain ⟨k, rfl⟩ : ∃ k, m = k + 1 := ⟨m - 1, by omega⟩
    simp only [loop, bind_apply] at h ⊢
    cases hd : body s d with
    | more => simp only [hd] at h; exact absurd h.symm hr
    | fail e => simpa only [hd] using h
    | done v rest =>
      simp only [hd] at h ⊢
      cases v with
      | inl s' => exact ih h k (by omega)
      | inr a => exact h

/-- Turns that consume at least one symbol never exhaust the bound of `iterate`. -/
theorem loop_eq_of_length {body : σ → Element β ε (σ ⊕ α)}
    (hp : ∀ {s d s' rest}, body s d = .done (.inl s') rest → rest.length < d.length)
    {n m : ℕ} {s : σ} {d : List β} (hn : d.length < n) (hm : d.length < m) :
    loop body n s d = loop body m s d := by
  induction n generalizing m s d with
  | zero => omega
  | succ n ih =>
    obtain ⟨k, rfl⟩ : ∃ k, m = k + 1 := ⟨m - 1, by omega⟩
    simp only [loop, bind_apply]
    cases hd : body s d with
    | more => rfl
    | fail e => rfl
    | done v rest =>
      cases v with
      | inl s' =>
        have hlt := hp hd
        exact ih (by omega) (by omega)
      | inr a => rfl

/-- One turn of a loop whose turns consume. -/
theorem iterate_eq {body : σ → Element β ε (σ ⊕ α)}
    (hp : ∀ {s d s' rest}, body s d = .done (.inl s') rest → rest.length < d.length)
    (s : σ) (d : List β) :
    iterate body s d = match body s d with
      | .more => .more
      | .fail e => .fail e
      | .done (.inl s') rest => iterate body s' rest
      | .done (.inr a) rest => .done a rest := by
  have h : iterate body s d = (body s >>= fun
      | .inl s' => loop body d.length s'
      | .inr a => pure a) d := rfl
  rw [h, bind_apply]
  cases hd : body s d with
  | more => rfl
  | fail e => rfl
  | done v rest =>
    cases v with
    | inl s' => exact loop_eq_of_length hp (hp hd) (Nat.lt_succ_self _)
    | inr a => rfl

theorem Stable.iterate {body : σ → Element β ε (σ ⊕ α)} (hb : ∀ s, Stable (body s)) (s : σ) :
    Stable (iterate body s) where
  fail_append {d e} h x :=
    loop_mono ((Stable.loop hb _ s).fail_append h x) nofun _ (by
      simp only [List.length_append]; omega)
  done_append {d a rest} h x :=
    loop_mono ((Stable.loop hb _ s).done_append h x) nofun _ (by
      simp only [List.length_append]; omega)
  suffix h := (Stable.loop hb _ s).suffix h

theorem Prompt.loop {body : σ → Element β ε (σ ⊕ α)} (hb : ∀ s, Prompt (body s)) (n : ℕ)
    (s : σ) : Prompt (loop body n s) := by
  induction n generalizing s with
  | zero => exact ⟨⟨nofun, nofun, nofun⟩, nofun⟩
  | succ n ih =>
    refine (hb s).bind fun r => ?_
    cases r with
    | inl s' => exact ih s'
    | inr a => exact Prompt.pure a

theorem Prompt.iterate {body : σ → Element β ε (σ ⊕ α)} (hb : ∀ s, Prompt (body s))
    (hc : ∀ s, Consumes (body s)) (s : σ) : Prompt (iterate body s) where
  toStable := Stable.iterate (fun s => (hb s).toStable) s
  take {d x a rest} h hr := by
    have hlong := (Prompt.loop hb _ s).take h hr
    unfold Element.iterate
    rw [← hlong]
    exact loop_eq_of_length (hc _).shorter (Nat.lt_succ_self _) (by
      simp only [List.length_append]; omega)

end Element
end Incremental
