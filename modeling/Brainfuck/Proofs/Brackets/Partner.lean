import Brainfuck.Proofs.Brackets.Opened
import Mathlib.Data.List.Sort

/-!
# Which bracket belongs to which

`Partner code i j` says that the `[` at `i` and the `]` at `j` belong together: what
stands between them is balanced. It speaks of the text alone, and of no stack and no
count, so that what a run does with brackets can be compared with it.

* `Brackets.closeOf?_eq_some_iff`: the search from a `[` finds its partner, and finds
  nothing if there is none. So a `[` has at most one partner, and so has a `]`
  (`Partner.left_unique`).
* `Partner.disjoint_or_nested`: two pairs of partners do not cross.
* `Opened.noStray`, `Opened.unclosed`: in opened code every `]` has a partner, and the
  open positions are those of the `[` that have none.
-/

namespace Brainfuck

/-- The `[` at `i` and the `]` at `j` belong together. -/
structure Partner (code : List UInt8) (i j : Nat) : Prop where
  /-- The `[` comes first. -/
  lt : i < j
  /-- There is a `[` at `i`. -/
  opening : code[i]? = some Bracket.opening.byte
  /-- There is a `]` at `j`. -/
  closing : code[j]? = some Bracket.closing.byte
  /-- What stands between the two is balanced. -/
  between : Balanced ((code.take j).drop (i + 1))

/-- The bracket at `k` has a partner. -/
def Paired (code : List UInt8) (k : Nat) : Prop := ∃ i j, Partner code i j ∧ (k = i ∨ k = j)

/-- Every `]` of the code has a partner in it. -/
def NoStray (code : List UInt8) : Prop :=
  ∀ j, code[j]? = some Bracket.closing.byte → ∃ i, Partner code i j

/-- The list `ps` holds, in ascending order, the positions of the `[` that have no partner in
the code. -/
structure Unclosed (code : List UInt8) (ps : List Nat) : Prop where
  /-- The positions ascend. -/
  ascending : ps.Pairwise (· < ·)
  /-- They are those of the `[` without a partner. -/
  mem_iff : ∀ p, p ∈ ps ↔ code[p]? = some Bracket.opening.byte ∧ ∀ j, ¬ Partner code p j

/-- There is one list of unclosed positions. -/
theorem Unclosed.unique {code : List UInt8} {ps qs : List Nat} (hp : Unclosed code ps)
    (hq : Unclosed code qs) : ps = qs := by
  refine hp.ascending.eq_of_mem_iff hq.ascending fun p => ?_
  rw [hp.mem_iff, hq.mem_iff]

namespace Partner

variable {code xs ys : List UInt8} {i j : Nat}

/-! ### Partners and parts of the code -/

/-- Two brackets with balanced code between them are partners. -/
theorem mk_append (us ws : List UInt8) {vs : List UInt8} (hv : Balanced vs) :
    Partner (us ++ Bracket.opening.byte :: (vs ++ Bracket.closing.byte :: ws)) us.length
      (us.length + 1 + vs.length) := by
  have hsplit : us ++ Bracket.opening.byte :: (vs ++ Bracket.closing.byte :: ws) =
      ((us ++ [Bracket.opening.byte]) ++ vs) ++ Bracket.closing.byte :: ws := by simp
  have hfront : (us ++ [Bracket.opening.byte]).length = us.length + 1 := by simp
  have hlen : ((us ++ [Bracket.opening.byte]) ++ vs).length = us.length + 1 + vs.length := by
    rw [List.length_append, hfront]
  constructor
  · omega
  · simp
  · rw [hsplit, ← hlen, List.getElem?_append_right (le_refl _), Nat.sub_self]
    rfl
  · rw [hsplit, ← hlen, List.take_left, ← hfront, List.drop_left]
    exact hv

/-- The code around two partners. -/
theorem exists_append (h : Partner code i j) :
    ∃ us vs ws, code = us ++ Bracket.opening.byte :: (vs ++ Bracket.closing.byte :: ws) ∧
      us.length = i ∧ Balanced vs ∧ i + 1 + vs.length = j := by
  obtain ⟨hlt, hi, hj, hb⟩ := h
  obtain ⟨hjlen, hjget⟩ := List.getElem?_eq_some_iff.mp hj
  obtain ⟨hilen, higet⟩ := List.getElem?_eq_some_iff.mp hi
  refine ⟨code.take i, (code.take j).drop (i + 1), code.drop (j + 1), ?_, ?_, hb, ?_⟩
  · have htake : (code.take j).drop i = Bracket.opening.byte :: (code.take j).drop (i + 1) := by
      rw [List.drop_eq_getElem_cons (by rw [List.length_take]; omega), List.getElem_take, higet]
    rw [← List.cons_append, ← htake, ← hjget, ← List.drop_eq_getElem_cons hjlen,
      ← List.append_assoc]
    have : code.take i = (code.take j).take i := by rw [List.take_take, Nat.min_eq_left hlt.le]
    rw [this, List.take_append_drop, List.take_append_drop]
  · rw [List.length_take]
    omega
  · rw [List.length_drop, List.length_take]
    omega

theorem append_right (h : Partner xs i j) (ys : List UInt8) : Partner (xs ++ ys) i j := by
  obtain ⟨us, vs, ws, rfl, rfl, hv, rfl⟩ := h.exists_append
  have := mk_append us (ws ++ ys) hv
  simpa using this

theorem append_left (h : Partner ys i j) (xs : List UInt8) :
    Partner (xs ++ ys) (xs.length + i) (xs.length + j) := by
  obtain ⟨us, vs, ws, rfl, rfl, hv, rfl⟩ := h.exists_append
  have := mk_append (xs ++ us) ws hv
  rw [List.append_assoc, List.length_append] at this
  rw [← Nat.add_assoc, ← Nat.add_assoc]
  exact this

theorem lt_length (h : Partner code i j) : j < code.length :=
  (List.getElem?_eq_some_iff.mp h.closing).1

/-- The partners of a prefix are those that stand in it. -/
theorem take_iff {n : Nat} : Partner (code.take n) i j ↔ Partner code i j ∧ j < n := by
  constructor
  · intro h
    refine ⟨?_, ?_⟩
    · have := h.append_right (code.drop n)
      rwa [List.take_append_drop] at this
    · have := h.lt_length
      rw [List.length_take] at this
      omega
  · rintro ⟨⟨hlt, hi, hj, hb⟩, hn⟩
    refine ⟨hlt, ?_, ?_, ?_⟩
    · rw [List.getElem?_take_of_lt (hlt.trans hn), hi]
    · rw [List.getElem?_take_of_lt hn, hj]
    · rwa [List.take_take, Nat.min_eq_left hn.le]

end Partner

namespace Paired

variable {code xs ys : List UInt8} {k : Nat}

theorem append_right (h : Paired xs k) (ys : List UInt8) : Paired (xs ++ ys) k := by
  obtain ⟨i, j, h, hk⟩ := h
  exact ⟨i, j, h.append_right ys, hk⟩

theorem append_left (h : Paired ys k) (xs : List UInt8) : Paired (xs ++ ys) (xs.length + k) := by
  obtain ⟨i, j, h, hk⟩ := h
  refine ⟨_, _, h.append_left xs, ?_⟩
  rcases hk with rfl | rfl
  · exact .inl rfl
  · exact .inr rfl

theorem cons (h : Paired xs k) (b : UInt8) : Paired (b :: xs) (k + 1) := by
  have := h.append_left [b]
  rwa [List.length_singleton, Nat.add_comm] at this

/-- The partner of a `[`. -/
theorem exists_closing (h : Paired code k) (hk : code[k]? = some Bracket.opening.byte) :
    ∃ j, Partner code k j := by
  obtain ⟨i, j, h, rfl | rfl⟩ := h
  · exact ⟨j, h⟩
  · rw [h.closing] at hk
    exact absurd hk (by decide)

/-- The partner of a `]`. -/
theorem exists_opening (h : Paired code k) (hk : code[k]? = some Bracket.closing.byte) :
    ∃ i, Partner code i k := by
  obtain ⟨i, j, h, rfl | rfl⟩ := h
  · rw [h.opening] at hk
    exact absurd hk (by decide)
  · exact ⟨i, h⟩

end Paired

/-- **Every bracket of balanced code has a partner in it.** -/
theorem Balanced.paired {xs : List UInt8} (h : Balanced xs) {k : Nat} {b : Bracket}
    (hk : xs[k]? = some b.byte) : Paired xs k := by
  induction h generalizing k with
  | nil => simp at hk
  | @plain c code hc _ ih =>
    cases k with
    | zero =>
      obtain rfl : c = b.byte := by simpa using hk
      rw [Bracket.ofByte?_eq_some_iff.mpr rfl] at hc
      cases hc
    | succ k =>
      have := ih (by simpa using hk)
      exact this.cons c
  | @loop body code hbody _ ihBody ihCode =>
    have hpair := Partner.mk_append [] code hbody
    rw [List.length_nil, Nat.zero_add, Nat.add_comm] at hpair
    cases k with
    | zero => exact ⟨0, _, hpair, .inl rfl⟩
    | succ k =>
      rw [List.getElem?_cons_succ] at hk
      by_cases hin : k < body.length
      · rw [List.getElem?_append_left hin] at hk
        exact ((ihBody hk).append_right _).cons _
      · obtain ⟨l, rfl⟩ := Nat.exists_eq_add_of_le (Nat.not_lt.mp hin)
        rw [List.getElem?_append_right (by omega), Nat.add_sub_cancel_left] at hk
        cases l with
        | zero => exact ⟨0, _, hpair, .inr rfl⟩
        | succ l =>
          have := ihCode (by simpa using hk)
          exact ((this.cons _).append_left body).cons _

/-! ### Opened code -/

namespace Opened

variable {xs : List UInt8} {ps : List Nat} {p : Nat}

/-- A bracket that is not open has a partner. -/
theorem paired (h : Opened xs ps) {k : Nat} {b : Bracket} (hk : xs[k]? = some b.byte)
    (hps : k ∉ ps) : Paired xs k := by
  induction h generalizing k with
  | balanced hx => exact hx.paired hk
  | @enter us vs _ _ hv ih =>
    rw [List.mem_cons, not_or] at hps
    by_cases hin : k < us.length
    · rw [List.getElem?_append_left hin] at hk
      exact (ih hk hps.2).append_right _
    · obtain ⟨l, rfl⟩ := Nat.exists_eq_add_of_le (Nat.not_lt.mp hin)
      rw [List.getElem?_append_right (by omega), Nat.add_sub_cancel_left] at hk
      cases l with
      | zero => exact absurd rfl hps.1
      | succ l =>
        have := hv.paired (by simpa using hk)
        exact (this.cons _).append_left us

/-- Opened code has no stray `]`. -/
theorem noStray (h : Opened xs ps) : NoStray xs := by
  intro j hj
  have hps : j ∉ ps := by
    intro hmem
    rw [h.getElem?_of_mem j hmem] at hj
    exact absurd hj (by decide)
  exact (h.paired hj hps).exists_opening hj

/-- A `[` that is open has no partner. -/
theorem not_partner (h : Opened xs ps) (hp : p ∈ ps) (j : Nat) : ¬ Partner xs p j := by
  intro hj
  obtain ⟨us, vs, qs, rfl, rfl, hv⟩ := h.exists_split hp
  obtain ⟨us', vs', ws, heq, hlen, hb, -⟩ := hj.exists_append
  obtain ⟨-, hrest⟩ := List.append_inj heq hlen.symm
  rw [List.cons.injEq] at hrest
  rw [hrest.2] at hv
  exact Brackets.not_opened_stray hb hv

/-- **The open positions are those of the `[` without a partner.** -/
theorem unclosed (h : Opened xs ps) : Unclosed xs ps.reverse := by
  refine ⟨List.pairwise_reverse.mpr h.pairwise_gt, fun p => ?_⟩
  rw [List.mem_reverse]
  constructor
  · exact fun hp => ⟨h.getElem?_of_mem p hp, h.not_partner hp⟩
  · rintro ⟨hget, hno⟩
    by_contra hp
    obtain ⟨j, hj⟩ := (h.paired hget hp).exists_closing hget
    exact hno j hj

/-- A `]` met while loops are open is the partner of the innermost open `[`. -/
theorem partner_of_closing {code : List UInt8} {n : Nat} (h : Opened (code.take n) (p :: ps))
    (hn : code[n]? = some Bracket.closing.byte) : Partner code p n := by
  obtain ⟨hlt, hget⟩ := List.getElem?_eq_some_iff.mp hn
  have hlen : (code.take n).length = n := by
    rw [List.length_take, Nat.min_eq_left hlt.le]
  have hsplit := List.take_append_drop n code
  rw [List.drop_eq_getElem_cons hlt, hget] at hsplit
  generalize code.take n = front at h hlen hsplit
  cases h with
  | @enter us vs _ _ hv =>
    rw [List.append_assoc, List.cons_append] at hsplit
    have := Partner.mk_append us (code.drop (n + 1)) hv
    rw [List.length_append, List.length_cons] at hlen
    rwa [hsplit, Nat.add_assoc, Nat.add_comm 1, hlen] at this

end Opened

namespace Partner

variable {code : List UInt8} {i j n : Nat} {ps : List Nat}

/-- Reading on over a whole loop opens nothing. -/
theorem opened_take (h : Partner code i j) (ho : Opened (code.take i) ps) :
    Opened (code.take (j + 1)) ps := by
  obtain ⟨us, vs, ws, rfl, rfl, hv, rfl⟩ := h.exists_append
  rw [List.take_left] at ho
  have hsplit : us ++ Bracket.opening.byte :: (vs ++ Bracket.closing.byte :: ws) =
      (us ++ Bracket.opening.byte :: (vs ++ [Bracket.closing.byte])) ++ ws := by simp
  have hlen : us.length + 1 + vs.length + 1 =
      (us ++ Bracket.opening.byte :: (vs ++ [Bracket.closing.byte])).length := by
    simp only [List.length_append, List.length_cons, List.length_nil]
    omega
  rw [hsplit, hlen, List.take_left]
  exact ho.append_balanced hv.enclose

end Partner

/-! ### The search for a partner -/

namespace Brackets

variable {code : Array UInt8} {i j : Nat}

/-- The code behind a bracket. -/
theorem drop_eq_cons {b : UInt8} (h : code[i]? = some b) :
    code.toList.drop i = b :: code.toList.drop (i + 1) := by
  rw [← Array.getElem?_toList] at h
  obtain ⟨hlt, hget⟩ := List.getElem?_eq_some_iff.mp h
  rw [List.drop_eq_getElem_cons hlt, hget]

/-- The search stops at the first `]` behind balanced code. -/
theorem closeOf?_of_drop {vs ws : List UInt8} (hv : Balanced vs)
    (h : code.toList.drop (i + 1) = vs ++ Bracket.closing.byte :: ws) :
    closeOf? code i = some (i + 1 + vs.length) := by
  have hget : code[i + 1 + vs.length]? = some Bracket.closing.byte := by
    rw [← Array.getElem?_toList, ← Nat.add_zero (i + 1 + vs.length), ← List.getElem?_drop,
      ← List.drop_drop, h, List.drop_left]
    rfl
  show closeFrom? code 0 (i + 1) = _
  rw [closeFrom?_append hv h, closeFrom?_of_getElem? hget, Bracket.ofByte?_eq_some_iff.mpr rfl]

/-- The search fails where the rest of the code has no stray `]`. -/
theorem closeOf?_of_opened {ps : List Nat} (h : Opened (code.toList.drop (i + 1)) ps) :
    closeOf? code i = none := by
  show closeFrom? code 0 (i + 1) = _
  have hdrop : code.toList.drop (i + 1) = code.toList.drop (i + 1) ++ [] := (List.append_nil _).symm
  rw [closeFrom?_opened h hdrop]
  apply closeFrom?_of_size_le
  rw [List.length_drop, Array.length_toList]
  omega

/-- The search finds a `]`. -/
theorem closing_of_closeOf? (h : closeOf? code i = some j) :
    code[j]? = some Bracket.closing.byte := by
  rcases opened_or_stray (code.toList.drop (i + 1)) with ⟨ps, ho⟩ | ⟨us, vs, hu, hrest⟩
  · rw [closeOf?_of_opened ho] at h
    cases h
  · rw [closeOf?_of_drop hu hrest, Option.some.injEq] at h
    rw [← h, ← Array.getElem?_toList, ← List.getElem?_drop, hrest]
    simp

/-- **The search from a `[` finds its partner**, and nothing else. -/
theorem closeOf?_eq_some_iff (hi : code[i]? = some Bracket.opening.byte) :
    closeOf? code i = some j ↔ Partner code.toList i j := by
  constructor
  · intro h
    rcases opened_or_stray (code.toList.drop (i + 1)) with ⟨ps, ho⟩ | ⟨us, vs, hu, hrest⟩
    · rw [closeOf?_of_opened ho] at h
      cases h
    · rw [closeOf?_of_drop hu hrest, Option.some.injEq] at h
      have hlt : i < code.toList.length := (Array.getElem?_eq_some_iff.mp hi).1
      have hsplit := List.take_append_drop i code.toList
      rw [drop_eq_cons hi, hrest] at hsplit
      have := Partner.mk_append (code.toList.take i) vs hu
      rwa [hsplit, List.length_take, Nat.min_eq_left hlt.le, h] at this
  · intro h
    obtain ⟨us, vs, ws, heq, rfl, hv, rfl⟩ := h.exists_append
    have hdrop : code.toList.drop (us.length + 1) = vs ++ Bracket.closing.byte :: ws := by
      rw [heq, ← List.drop_drop, List.drop_left]
      rfl
    exact closeOf?_of_drop hv hdrop

/-- The search from a `[` with a partner finds it. -/
theorem closeOf?_of_partner (h : Partner code.toList i j) : closeOf? code i = some j := by
  have hi := h.opening
  rw [Array.getElem?_toList] at hi
  exact (closeOf?_eq_some_iff hi).mpr h

theorem closeOf?_eq_none_iff (hi : code[i]? = some Bracket.opening.byte) :
    closeOf? code i = none ↔ ∀ j, ¬ Partner code.toList i j := by
  rw [Option.eq_none_iff_forall_ne_some]
  exact forall_congr' fun j => not_congr (closeOf?_eq_some_iff hi)

end Brackets

namespace Partner

variable {code : List UInt8} {i i' j j' : Nat}

/-- A `[` has at most one partner. -/
theorem right_unique (h : Partner code i j) (h' : Partner code i j') : j = j' := by
  have hj : Brackets.closeOf? code.toArray i = some j := Brackets.closeOf?_of_partner h
  have hj' : Brackets.closeOf? code.toArray i = some j' := Brackets.closeOf?_of_partner h'
  exact Option.some.inj (hj.symm.trans hj')

/-- The partner of a `[` that stands between two partners stands between them too. -/
theorem exists_inside {k : Nat} (h : Partner code i j) (hik : i < k) (hkj : k < j)
    (hk : code[k]? = some Bracket.opening.byte) : ∃ l, Partner code k l ∧ l < j := by
  -- that `[` is one of the balanced code between the two
  have hget : ((code.take j).drop (i + 1))[k - (i + 1)]? = some Bracket.opening.byte := by
    rw [List.getElem?_drop, Nat.add_sub_cancel' hik, List.getElem?_take_of_lt hkj]
    exact hk
  obtain ⟨l, hl⟩ := (h.between.paired hget).exists_closing hget
  have hpart := hl.append_left (code.take (i + 1))
  have htake : code.take (i + 1) = (code.take j).take (i + 1) := by
    rw [List.take_take, Nat.min_eq_left h.lt]
  have hlen : (code.take (i + 1)).length = i + 1 := by
    rw [List.length_take]
    have := h.lt
    have := h.lt_length
    omega
  rw [hlen, htake, List.take_append_drop, Nat.add_sub_cancel' hik] at hpart
  exact ⟨_, take_iff.mp hpart⟩

/-- A `]` has at most one partner. -/
theorem left_unique (h : Partner code i j) (h' : Partner code i' j) : i = i' := by
  -- of two, the later one would have its partner before the `]`
  have key : ∀ {i i'}, Partner code i j → Partner code i' j → ¬ i < i' := by
    intro i i' h h' hlt
    obtain ⟨k, hk, hkj⟩ := h.exists_inside hlt h'.lt h'.opening
    exact absurd (hk.right_unique h') hkj.ne
  rcases Nat.lt_trichotomy i i' with hlt | heq | hgt
  · exact absurd hlt (key h h')
  · exact heq
  · exact absurd hgt (key h' h)

/-- **Of two pairs of partners, the later one stands behind the other or inside it.** -/
theorem disjoint_or_nested {k l : Nat} (h : Partner code i j) (h' : Partner code k l)
    (hik : i < k) : j < k ∨ l < j := by
  rcases Nat.lt_trichotomy k j with hkj | rfl | hjk
  · obtain ⟨l', hl', hlt⟩ := h.exists_inside hik hkj h'.opening
    rw [hl'.right_unique h'] at hlt
    exact .inr hlt
  · -- no byte is both brackets
    have hboth := h.closing.symm.trans h'.opening
    exact absurd hboth (by decide)
  · exact .inl hjk

end Partner

end Brainfuck
