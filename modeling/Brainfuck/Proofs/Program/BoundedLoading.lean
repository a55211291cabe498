import Brainfuck.Proofs.Program.Loading

/-!
# Loading within bounds

A program is loaded without keeping more of its source than one byte beyond the limit, and still
what comes of it is what a program of all the bytes would be (`Program.load_bounded`). That holds
of every source: `Source.ReadsTo` says what reading it to its end comes to, whichever pieces the
bytes come in and however often a read fails transiently.

* What is kept are the first bytes that the source delivers (`Source.toList_fill`).
* Reading stops at the first report of the end, or at the first failure that is not transient, in
  either part of the loading, and what is behind that is left alone (`Program.load_snd`).
* The outcome depends on what one-byte reads would meet, and not on the pieces
  (`Source.contents_eq_gather`).
-/

namespace Brainfuck

namespace Source

/-- What reading a source to its end comes to, where a read that fails transiently is made again:
the bytes that it delivers, the failure that ends it, or none if it reports its end, and what it
holds behind that. -/
inductive ReadsTo : Source → List UInt8 → Option IoError → Source → Prop where
  /-- There is nothing more to deliver, and every read reports the end. -/
  | exhausted : ReadsTo [] [] none []
  /-- A piece of data of any size. -/
  | data {bytes more : List UInt8} {e? : Option IoError} {s rest : Source} :
      ReadsTo s more e? rest → ReadsTo (.data bytes :: s) (bytes ++ more) e? rest
  /-- A transient failure. -/
  | again {e : IoError} {bytes : List UInt8} {e? : Option IoError} {s rest : Source} :
      e.IsTransient → ReadsTo s bytes e? rest → ReadsTo (.failure e :: s) bytes e? rest
  /-- A report of the end. -/
  | finish {rest : Source} : ReadsTo (.finish :: rest) [] none rest
  /-- A failure that is not transient. -/
  | failed {e : IoError} {rest : Source} :
      ¬ e.IsTransient → ReadsTo (.failure e :: rest) [] (some e) rest

section

variable {room : Nat} {buffer : Array UInt8} {s rest : Source} {bytes : List UInt8}
  {e? : Option IoError}

/-- Reading any source to its end comes to something. -/
theorem exists_readsTo (s : Source) : ∃ bytes e? rest, s.ReadsTo bytes e? rest := by
  induction s with
  | nil => exact ⟨_, _, _, .exhausted⟩
  | cons d s ih =>
    obtain ⟨bytes, e?, rest, h⟩ := ih
    cases d with
    | data piece => exact ⟨_, _, _, h.data⟩
    | finish => exact ⟨_, _, _, .finish⟩
    | failure e =>
      by_cases he : e.IsTransient
      · exact ⟨_, _, _, h.again he⟩
      · exact ⟨_, _, _, .failed he⟩

theorem ReadsTo.contents_eq (h : s.ReadsTo bytes e? rest) :
    s.contents = e?.elim (.ok bytes) .error := by
  induction h with
  | exhausted => rfl
  | @data _ _ e? _ _ _ ih =>
    rw [contents, ih]
    cases e? <;> rfl
  | again he _ ih => rw [contents, if_pos he, ih]
  | finish => rfl
  | failed he => rw [contents, if_neg he]; rfl

/-! ### The first part -/

/-- What filling a buffer of `room` bytes comes to, where `bytes` are those kept before and those
that the source delivers: the bytes kept, why reading stopped, and what is left of the source. -/
inductive Fills (room : Nat) (bytes : List UInt8) (e? : Option IoError) (rest : Source) :
    Array UInt8 × Stop × Source → Prop where
  /-- There is no more room. What is left delivers the bytes that are not kept. -/
  | full {kept : Array UInt8} {more : List UInt8} {left : Source} : kept.size = room →
      kept.toList ++ more = bytes → left.ReadsTo more e? rest → Fills room bytes e? rest
        (kept, .full, left)
  /-- All the bytes are kept, and the source was read to its end. -/
  | ended {kept : Array UInt8} : kept.size < room → kept.toList = bytes →
      Fills room bytes e? rest (kept, e?.elim .finished .failed, rest)

theorem fills_of_size_eq (h : s.ReadsTo bytes e? rest) (hfull : buffer.size = room) :
    Fills room (buffer.toList ++ bytes) e? rest (s.fill room buffer) := by
  have hfill : s.fill room buffer = (buffer, .full, s) := by
    cases s <;> simp [fill, hfull]
  rw [hfill]
  exact .full hfull rfl h

theorem fills_of_size_lt (h : s.ReadsTo bytes e? rest) (hlt : buffer.size < room) :
    Fills room (buffer.toList ++ bytes) e? rest (s.fill room buffer) := by
  have hroom : ¬ room ≤ buffer.size := Nat.not_le.mpr hlt
  induction h generalizing buffer with
  | exhausted =>
    rw [fill, if_neg hroom]
    exact .ended hlt (List.append_nil _).symm
  | @data piece more _ s _ h ih =>
    have hsize (xs : List UInt8) : (buffer ++ xs).size = buffer.size + xs.length := by
      rw [← Array.length_toList, Array.toList_appendList, List.length_append, Array.length_toList]
    rw [fill, if_neg hroom]
    dsimp only
    split
    · rename_i hfits
      have hle : piece.length ≤ room - buffer.size := List.drop_eq_nil_iff.mp hfits
      have hlist : buffer.toList ++ (piece ++ more) = (buffer ++ piece).toList ++ more := by
        rw [Array.toList_appendList, List.append_assoc]
      rw [hlist]
      by_cases hfull : (buffer ++ piece).size = room
      · exact fills_of_size_eq h hfull
      · have hmore : (buffer ++ piece).size < room := by
          rw [hsize] at hfull ⊢
          omega
        exact ih hmore (Nat.not_le.mpr hmore)
    · rename_i hmore
      -- the piece is cut where the room ends
      have hlt' : room - buffer.size < piece.length :=
        Nat.lt_of_not_le fun hle => hmore (List.drop_eq_nil_of_le hle)
      refine .full ?_ ?_ h.data
      · rw [hsize, List.length_take]
        omega
      · rw [Array.toList_appendList, List.append_assoc, ← List.append_assoc (piece.take _),
          List.take_append_drop]
  | again he _ ih =>
    rw [fill, if_neg hroom, if_pos he]
    exact ih hlt hroom
  | finish =>
    rw [fill, if_neg hroom]
    exact .ended hlt (List.append_nil _).symm
  | failed he =>
    rw [fill, if_neg hroom, if_neg he]
    exact .ended hlt (List.append_nil _).symm

theorem fills_fill (h : s.ReadsTo bytes e? rest) (room : Nat) :
    Fills (room + 1) bytes e? rest (s.fill (room + 1) #[]) := by
  have hempty : (#[] : Array UInt8).size < room + 1 := Nat.succ_pos room
  exact fills_of_size_lt h hempty

/-- What is kept are the first bytes, as many as there is room for. -/
theorem Fills.toList_eq {out : Array UInt8 × Stop × Source} (h : Fills room bytes e? rest out) :
    out.1.toList = bytes.take room := by
  cases h with
  | full hsize hbytes _ => rw [← hbytes, ← hsize, ← Array.length_toList, List.take_left]
  | ended hsize hbytes =>
    rw [hbytes, List.take_of_length_le]
    rw [← hbytes, Array.length_toList]
    exact Nat.le_of_lt hsize

/-! ### The second part -/

/-- Draining stops where reading to the end does. -/
theorem ReadsTo.drain_snd (h : s.ReadsTo bytes e? rest) (count : Nat) :
    (s.drain count).2 = rest := by
  induction h generalizing count with
  | exhausted => rfl
  | data _ ih => exact ih _
  | again he _ ih =>
    rw [drain, if_pos he]
    exact ih count
  | finish => rfl
  | failed he => rw [drain, if_neg he]

end

/-! ### Pieces -/

/-- All that one-byte reads would get up to the end, unless one fails for good before. -/
def gather : List Arrival → Except IoError (List UInt8)
  | [] => .ok []
  | .byte b :: as => (gather as).map (b :: ·)
  | .finish :: _ => .ok []
  | .failure e :: as => if e.IsTransient then gather as else .error e

theorem gather_bytes (bs : List UInt8) (as : List Arrival) :
    gather (bs.map .byte ++ as) = (gather as).map (bs ++ ·) := by
  induction bs with
  | nil =>
    show gather as = _
    cases gather as <;> rfl
  | cons b bs ih =>
    rw [List.map_cons, List.cons_append, gather, ih]
    cases gather as <;> rfl

/-- **In which pieces the bytes come makes no difference.** -/
theorem contents_eq_gather (s : Source) : s.contents = gather s.arrivals := by
  fun_induction contents s with
  | case1 => rfl
  | case2 bytes rest ih => rw [arrivals_data, gather_bytes, ih]
  | case3 rest => rfl
  | case4 e rest he ih => rw [arrivals_failure, gather, if_pos he, ih]
  | case5 e rest he => rw [arrivals_failure, gather, if_neg he]

end Source

namespace Program

/-- What is left of a source by loading is what it holds behind its end. -/
theorem load_snd {s rest : Source} {bytes : List UInt8} {e? : Option IoError}
    (h : s.ReadsTo bytes e? rest) : (load s).2 = rest := by
  have hfill := Source.fills_fill h limit
  unfold load
  generalize s.fill (limit + 1) #[] = out at hfill
  cases hfill with
  | @full kept _ left _ _ hleft =>
    have hdrain := hleft.drain_snd kept.size
    dsimp only
    split
    · rename_i heq
      rw [heq] at hdrain
      exact hdrain
    · rename_i heq
      rw [heq] at hdrain
      exact hdrain
  | ended _ _ =>
    cases e? with
    | none => rfl
    | some e => rfl

/-- The executable part is the longest part at the front of the bytes without a terminator. -/
structure LongestFront (bytes front : List UInt8) : Prop where
  /-- It is at the front. -/
  isPrefix : front <+: bytes
  /-- There is no terminator in it. -/
  not_mem : terminator ∉ front
  /-- There is no longer one. -/
  longest : ∀ xs, xs <+: bytes → terminator ∉ xs → xs <+: front

theorem longestFront_code (p : Program) : LongestFront p.buffer.toList p.code.toList := by
  rw [code, Array.toList_takeWhile]
  refine ⟨List.takeWhile_prefix _, fun hmem => ?_, fun xs hxs hno => ?_⟩
  · have hne := List.all_eq_true.mp List.all_takeWhile terminator hmem
    exact absurd rfl (of_decide_eq_true hne)
  · obtain ⟨ys, hys⟩ := hxs
    have hall : ∀ b ∈ xs, decide (b ≠ terminator) = true := by
      intro b hb
      exact decide_eq_true fun heq => hno (heq ▸ hb)
    rw [← hys, List.takeWhile_append_of_pos hall]
    exact List.prefix_append _ _

/-- **Loading within bounds is loading the whole.** For every source:

* Reading it to its end comes to some bytes, maybe a failure, and what is left behind that.
* If it ends with a failure, loading fails with that one, however many bytes came before. If not,
  loading comes to what a program of all the bytes comes to. In either case what is left is left
  alone.
* The bytes kept on the way are the first ones, at most one more than the limit.
* A program of the bytes holds all of them and executes the longest part at their front without a
  terminator; or they are more than the limit, and the error gives their true number.
* In which pieces the bytes come makes no difference to the outcome. -/
theorem load_bounded (s : Source) :
    (∃ bytes e? rest, s.ReadsTo bytes e? rest) ∧
      (∀ bytes e? rest, s.ReadsTo bytes e? rest →
        load s = (e?.elim (ofBytes bytes.toArray) (fun e => .error (.cannotRead e)), rest) ∧
          (s.fill (limit + 1) #[]).1.toList = bytes.take (limit + 1) ∧
          (bytes.length ≤ limit → ∃ p, ofBytes bytes.toArray = .ok p ∧ p.buffer.toList = bytes ∧
            LongestFront bytes p.code.toList) ∧
          (limit < bytes.length →
            ofBytes bytes.toArray = .error (.tooLarge bytes.length limit))) ∧
      ∀ s', s'.arrivals = s.arrivals → (load s').1 = (load s).1 := by
  refine ⟨s.exists_readsTo, fun bytes e? rest h => ⟨?_, ?_, ?_, ?_⟩, fun s' hs => ?_⟩
  · refine Prod.ext ?_ (load_snd h)
    rw [load_fst, h.contents_eq]
    cases e? <;> rfl
  · exact (Source.fills_fill h limit).toList_eq
  · intro hle
    have hsize : bytes.toArray.size ≤ limit := hle
    let p : Program := ⟨bytes.toArray, hsize⟩
    exact ⟨p, ofBytes_eq_ok_iff.mpr rfl, rfl, longestFront_code p⟩
  · intro hlt
    exact ofBytes_of_limit_lt hlt
  · rw [load_fst, load_fst, Source.contents_eq_gather, Source.contents_eq_gather, hs]

/-- A source that goes two bytes beyond the limit, with a transient failure in either part and more
data behind its end: the true number is reported, and what is behind the end is left alone. -/
theorem load_bounded_two_over :
    ∃ (s rest : Source) (bytes : List UInt8), s.ReadsTo bytes none rest ∧
      limit < bytes.length ∧ load s = (.error (.tooLarge (limit + 2) limit), rest) ∧
      (s.fill (limit + 1) #[]).1.toList = bytes.take (limit + 1) ∧ rest = [.data [43]] := by
  let again : IoError := ⟨.interrupted, "interrupted"⟩
  let front : List UInt8 := List.replicate limit 43
  let rest : Source := [.data [43]]
  let s : Source :=
    .failure again :: .data front :: .failure again :: .data [44, 0] :: .finish :: rest
  have hs : s.ReadsTo (front ++ ([44, 0] ++ [])) none rest :=
    .again rfl (.data (.again rfl (.data .finish)))
  have hlength : (front ++ ([44, 0] ++ [])).length = limit + 2 := by simp [front]
  have hlong : limit < (front ++ ([44, 0] ++ [])).length := by omega
  obtain ⟨hload, hkept, -, hlarge⟩ := (load_bounded s).2.1 _ _ _ hs
  refine ⟨s, rest, _, hs, hlong, ?_, hkept, rfl⟩
  rw [hload, Option.elim_none, hlarge hlong, hlength]

end Program

end Brainfuck
