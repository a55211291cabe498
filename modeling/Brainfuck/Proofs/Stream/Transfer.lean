import Brainfuck.Instruction
import Brainfuck.Proofs.Stream.Answers

/-!
# Transfers

A transfer is what one `.` or one `,` does on the streams. For a `.`, the writes that fail
transiently, and then the one that takes the byte. For a `,`, one flush, which has to succeed;
then the reads that fail transiently, and then the one that is answered. So writes and reads
are made again and flushes are not, and the flush comes before the first read only.

`Transfer` says which calls those are, and `BrokenTransfer` which calls are made when the
transfer fails, and with which error. Where several transfers are made one after another
(`Transfers`), there is a flush before every read, with no write in between
(`Transfers.readsFlushed`), and there are as many flushes as there are transfers of `,`
(`Transfers.countP_isFlush`).
-/

namespace Brainfuck

namespace Call

/-- A read, whatever came of it. -/
def IsRead : Call → Prop
  | .read _ | .readEnd | .readFailed _ => True
  | _ => False

/-- A flush, whatever came of it. -/
def isFlush : Call → Bool
  | .flushed | .flushFailed _ => true
  | _ => false

/-- The read that is answered so: with a byte, or with the end of the input. -/
def ofAnswer : Option UInt8 → Call
  | some b => .read b
  | none => .readEnd

end Call

/-- The calls made by a `.` or a `,` that completes. -/
inductive Transfer : Instruction → List Call → Prop where
  /-- Transient failures to write, and then the byte is taken. -/
  | put (n : Nat) (b : UInt8) :
      Transfer .output (List.replicate n (.writeFailed .interrupted) ++ [.wrote b])
  /-- A flush, transient failures to read, and then an answer. -/
  | take (n : Nat) (b? : Option UInt8) :
      Transfer .input (.flushed :: (List.replicate n (.readFailed .interrupted) ++ [.ofAnswer b?]))

/-- The calls made by a `.` or a `,` that fails, and the error it fails with. -/
inductive BrokenTransfer : Instruction → List Call → IoError → Prop where
  /-- Transient failures to write, and then another failure. -/
  | put (n : Nat) {e : IoError} : ¬ e.IsTransient →
      BrokenTransfer .output (List.replicate n (.writeFailed .interrupted) ++ [.writeFailed e.kind]) e
  /-- Transient failures to write, and then the byte is not taken. -/
  | putNothing (n : Nat) :
      BrokenTransfer .output (List.replicate n (.writeFailed .interrupted) ++ [.wroteNothing])
        .wroteNothing
  /-- A flush that fails, transiently or not. -/
  | flush (e : IoError) : BrokenTransfer .input [.flushFailed e.kind] e
  /-- A flush, transient failures to read, and then another failure. -/
  | take (n : Nat) {e : IoError} : ¬ e.IsTransient →
      BrokenTransfer .input
        (.flushed :: (List.replicate n (.readFailed .interrupted) ++ [.readFailed e.kind])) e

/-- The calls of completed transfers, one after another. -/
inductive Transfers : List Instruction → List Call → Prop where
  /-- There are none. -/
  | nil : Transfers [] []
  /-- A transfer, and then others. -/
  | cons {k : Instruction} {ks : List Instruction} {group calls : List Call} :
      Transfer k group → Transfers ks calls → Transfers (k :: ks) (group ++ calls)

/-! ### The calls of the streams -/

namespace Sink

variable {b : UInt8} {s : Schedule WriteFault} {e : IoError}

theorem transfer_of_put_ok (h : (put b s).result = .ok ()) : Transfer .output (put b s).calls := by
  suffices ∃ n, (put b s).calls = List.replicate n (.writeFailed .interrupted) ++ [.wrote b] by
    obtain ⟨n, hn⟩ := this
    rw [hn]
    exact .put n b
  fun_induction put b s with
  | case1 => exact ⟨0, rfl⟩
  | case2 n f rest => exact ⟨0, rfl⟩
  | case3 rest => cases h
  | case4 e rest he ih =>
    obtain ⟨n, hn⟩ := ih h
    have hk : e.kind = .interrupted := he
    exact ⟨n + 1, by rw [Put.after, hn, hk, List.replicate_succ, List.cons_append]⟩
  | case5 e rest he => cases h

theorem brokenTransfer_of_put_error (h : (put b s).result = .error e) :
    BrokenTransfer .output (put b s).calls e := by
  suffices ∃ n c, (put b s).calls = List.replicate n (.writeFailed .interrupted) ++ [c] ∧
      ((c = .wroteNothing ∧ e = .wroteNothing) ∨ (c = .writeFailed e.kind ∧ ¬ e.IsTransient)) by
    obtain ⟨n, c, hn, ⟨rfl, rfl⟩ | ⟨rfl, he⟩⟩ := this
    · rw [hn]
      exact .putNothing n
    · rw [hn]
      exact .put n he
  fun_induction put b s with
  | case1 => cases h
  | case2 n f rest => cases h
  | case3 rest =>
    cases h
    exact ⟨0, _, rfl, .inl ⟨rfl, rfl⟩⟩
  | case4 e' rest he ih =>
    obtain ⟨n, c, hn, hc⟩ := ih h
    have hk : e'.kind = .interrupted := he
    exact ⟨n + 1, c, by rw [Put.after, hn, hk, List.replicate_succ, List.cons_append], hc⟩
  | case5 e' rest he =>
    cases h
    exact ⟨0, _, rfl, .inr ⟨rfl, he⟩⟩

variable {s : Schedule IoError}

theorem call_of_flush_ok (h : (flush s).failure? = none) : (flush s).call = .flushed := by
  rw [Flushed.call, h]

theorem call_of_flush_failed (h : (flush s).failure? = some e) :
    (flush s).call = .flushFailed e.kind := by
  rw [Flushed.call, h]

/-- A flush is a flush, whatever came of it. -/
theorem isFlush_call (f : Flushed) : f.call.isFlush = true := by
  unfold Flushed.call
  split <;> rfl

end Sink

namespace Source

variable {s : Source}

/-- The reads of a `,` that is answered. -/
theorem calls_of_pull_ok {b? : Option UInt8} (h : s.pull.result = .ok b?) :
    ∃ n, s.pull.calls = List.replicate n (.readFailed .interrupted) ++ [.ofAnswer b?] := by
  fun_induction pull s with
  | case1 =>
    cases h
    exact ⟨0, rfl⟩
  | case2 rest ih => exact ih h
  | case3 b bs rest =>
    cases h
    exact ⟨0, rfl⟩
  | case4 rest =>
    cases h
    exact ⟨0, rfl⟩
  | case5 e rest he ih =>
    obtain ⟨n, hn⟩ := ih h
    have hk : e.kind = .interrupted := he
    exact ⟨n + 1, by rw [Pulled.after, hn, hk, List.replicate_succ, List.cons_append]⟩
  | case6 e rest he => cases h

/-- The reads of a `,` that fails. -/
theorem calls_of_pull_error {e : IoError} (h : s.pull.result = .error e) :
    ¬ e.IsTransient ∧
      ∃ n, s.pull.calls = List.replicate n (.readFailed .interrupted) ++ [.readFailed e.kind] := by
  fun_induction pull s with
  | case1 => cases h
  | case2 rest ih => exact ih h
  | case3 b bs rest => cases h
  | case4 rest => cases h
  | case5 e' rest he ih =>
    obtain ⟨hfatal, n, hn⟩ := ih h
    have hk : e'.kind = .interrupted := he
    exact ⟨hfatal, n + 1, by rw [Pulled.after, hn, hk, List.replicate_succ, List.cons_append]⟩
  | case6 e' rest he =>
    cases h
    exact ⟨he, 0, rfl⟩

end Source

/-! ### Flushes and reads -/

/-- Before every read there is a flush that succeeded, with nothing but transient failures to
read in between. -/
def Call.ReadsFlushed (calls : List Call) : Prop :=
  ∀ us c vs, calls = us ++ c :: vs → c.IsRead →
    ∃ xs n, us = xs ++ .flushed :: List.replicate n (.readFailed .interrupted)

namespace Call.ReadsFlushed

variable {xs ys : List Call}

/-- Calls of which none is a read. -/
theorem of_forall_not (h : ∀ c ∈ xs, ¬ c.IsRead) : ReadsFlushed xs := by
  rintro us c vs rfl hc
  exact absurd hc (h c (List.mem_append_right us List.mem_cons_self))

/-- Transient failures to write, and a call that is no read. -/
theorem of_put (n : Nat) {c : Call} (hc : ¬ c.IsRead) :
    ReadsFlushed (List.replicate n (.writeFailed .interrupted) ++ [c]) := by
  refine of_forall_not fun d hd hread => ?_
  rcases List.mem_append.mp hd with hd | hd
  · rw [List.eq_of_mem_replicate hd] at hread
    exact hread
  · rw [List.mem_singleton.mp hd] at hread
    exact hc hread

/-- A flush, transient failures to read, and one more read. -/
theorem of_flushed (n : Nat) (c : Call) :
    ReadsFlushed (.flushed :: (List.replicate n (.readFailed .interrupted) ++ [c])) := by
  intro us d vs h hd
  cases us with
  | nil =>
    rw [List.nil_append, List.cons.injEq] at h
    rw [← h.1] at hd
    exact hd.elim
  | cons u us =>
    rw [List.cons_append, List.cons.injEq] at h
    obtain ⟨rfl, htail⟩ := h
    -- what stands before the read is among the reads that were made again
    have hlen := congrArg List.length htail
    simp only [List.length_append, List.length_cons, List.length_nil] at hlen
    have hus : us <+: List.replicate n (.readFailed .interrupted) :=
      List.prefix_of_prefix_length_le ⟨d :: vs, htail.symm⟩ (List.prefix_append _ [c]) (by omega)
    obtain ⟨-, hus⟩ := List.prefix_replicate_iff.mp hus
    exact ⟨[], us.length, congrArg (.flushed :: ·) hus⟩

theorem append (hx : ReadsFlushed xs) (hy : ReadsFlushed ys) : ReadsFlushed (xs ++ ys) := by
  intro us c vs h hc
  obtain ⟨ws, rfl, hws⟩ | ⟨ws, rfl, hws⟩ := List.append_eq_append_iff.mp h
  · obtain ⟨zs, n, rfl⟩ := hy ws c vs hws hc
    exact ⟨xs ++ zs, n, (List.append_assoc ..).symm⟩
  · cases ws with
    | nil =>
      obtain ⟨zs, n, hn⟩ := hy [] c vs hws.symm hc
      exact absurd hn (by simp)
    | cons w ws =>
      obtain ⟨rfl, -⟩ := List.cons.inj hws
      exact hx us c ws rfl hc

/-- No read is made while a byte is written and not flushed. -/
theorem flushed_mem (h : ReadsFlushed xs) {us ms vs : List Call} {b : UInt8} {c : Call}
    (hxs : xs = us ++ .wrote b :: (ms ++ c :: vs)) (hc : c.IsRead) : .flushed ∈ ms := by
  rw [← List.cons_append, ← List.append_assoc] at hxs
  obtain ⟨zs, n, hn⟩ := h _ c vs hxs hc
  obtain ⟨ws, rfl, hws⟩ | ⟨ws, rfl, hws⟩ := List.append_eq_append_iff.mp hn
  · cases ws with
    | nil => cases hws
    | cons w ws =>
      obtain ⟨-, rfl⟩ := List.cons.inj hws
      exact List.mem_append_right ws List.mem_cons_self
  · have hmem : Call.wrote b ∈ .flushed :: List.replicate n (.readFailed .interrupted) := by
      rw [hws]
      exact List.mem_append_right ws List.mem_cons_self
    rcases List.mem_cons.mp hmem with hb | hb
    · cases hb
    · cases List.eq_of_mem_replicate hb

end Call.ReadsFlushed

/-- Calls that fail transiently, of which none is a flush. -/
private theorem countP_replicate {c : Call} (h : c.isFlush = false) (n : Nat) :
    (List.replicate n c).countP Call.isFlush = 0 := by
  rw [List.countP_replicate, h]
  rfl

namespace Transfer

variable {k : Instruction} {xs : List Call}

theorem readsFlushed (h : Transfer k xs) : Call.ReadsFlushed xs := by
  cases h with
  | put n b => exact .of_put n id
  | take n b? => exact .of_flushed n _

theorem countP_isFlush (h : Transfer k xs) : xs.countP Call.isFlush = [k].count .input := by
  cases h with
  | put n b =>
    rw [List.countP_append, countP_replicate rfl]
    rfl
  | take n b? =>
    rw [List.countP_cons, List.countP_append, countP_replicate rfl]
    cases b? <;> rfl

end Transfer

namespace BrokenTransfer

variable {k : Instruction} {xs : List Call} {e : IoError}

theorem readsFlushed (h : BrokenTransfer k xs e) : Call.ReadsFlushed xs := by
  cases h with
  | put n _ => exact .of_put n id
  | putNothing n => exact .of_put n id
  | flush e => exact .of_put 0 id
  | take n _ => exact .of_flushed n _

theorem countP_isFlush (h : BrokenTransfer k xs e) :
    xs.countP Call.isFlush = [k].count .input := by
  cases h with
  | put n _ =>
    rw [List.countP_append, countP_replicate rfl]
    rfl
  | putNothing n =>
    rw [List.countP_append, countP_replicate rfl]
    rfl
  | flush e => rfl
  | take n _ =>
    rw [List.countP_cons, List.countP_append, countP_replicate rfl]
    rfl

end BrokenTransfer

namespace Transfers

variable {ks ls : List Instruction} {xs ys : List Call}

theorem single {k : Instruction} (h : Transfer k xs) : Transfers [k] xs := by
  have := Transfers.cons h .nil
  rwa [List.append_nil] at this

theorem append (hx : Transfers ks xs) (hy : Transfers ls ys) : Transfers (ks ++ ls) (xs ++ ys) := by
  induction hx with
  | nil => exact hy
  | cons hgroup _ ih =>
    rw [List.append_assoc]
    exact .cons hgroup ih

theorem readsFlushed (h : Transfers ks xs) : Call.ReadsFlushed xs := by
  induction h with
  | nil => exact .of_forall_not (by simp)
  | cons hgroup _ ih => exact hgroup.readsFlushed.append ih

/-- There is one flush for each transfer of a `,`. -/
theorem countP_isFlush (h : Transfers ks xs) : xs.countP Call.isFlush = ks.count .input := by
  induction h with
  | nil => rfl
  | @cons k ks _ _ hgroup _ ih =>
    rw [List.countP_append, ih, hgroup.countP_isFlush, ← List.count_append, List.singleton_append]

end Transfers

end Brainfuck
