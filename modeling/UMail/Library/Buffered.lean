import Mathlib.Data.List.Infix

-- A reader with a buffer of a fixed size over a connection.
namespace Buffered

variable {α : Type}

-- The connection is what it still delivers, read by read. A read that finds room
-- for a part only leaves the rest to the next one.
structure Reader (α : Type) where
  size : Nat
  buffered : List α
  arrivals : List (List α)
  taken : Nat
  deriving DecidableEq, Repr

def Reader.stream (r : Reader α) : List α := r.buffered ++ r.arrivals.flatten

def Reader.total (r : Reader α) : Nat := r.taken + r.arrivals.flatten.length

def maxConsecutiveEmptyReads : Nat := 100

-- Reads until something comes. It fails at the end of the connection, and when
-- nothing comes too often.
def readSome (room : Nat) : Nat → List (List α) → Option (List α × List (List α))
  | 0, _ | _ + 1, [] => none
  | tries + 1, [] :: rest => readSome room tries rest
  | _ + 1, (a :: chunk) :: rest =>
    if chunk.length < room then some (a :: chunk, rest)
    else some ((a :: chunk).take room, (a :: chunk).drop room :: rest)

def fill (r : Reader α) : Option (Reader α) :=
  (readSome (r.size - r.buffered.length) maxConsecutiveEmptyReads r.arrivals).map fun read =>
    ⟨r.size, r.buffered ++ read.1, read.2, r.taken + read.1.length⟩

structure Slice (α : Type) where
  chunk : List α
  complete : Bool
  reader : Reader α

-- Reads up to a delimiter. A buffer that is full without one is given away as it
-- is. Every turn reads something, so the size is enough fuel.
def sliceLoop [DecidableEq α] (delim : α) : Nat → Reader α → Option (Slice α)
  | 0, _ => none
  | fuel + 1, r =>
    if delim ∈ r.buffered then
      let n := r.buffered.idxOf delim + 1
      some ⟨r.buffered.take n, true, { r with buffered := r.buffered.drop n }⟩
    else if r.size ≤ r.buffered.length then some ⟨r.buffered, false, { r with buffered := [] }⟩
    else (fill r).bind (sliceLoop delim fuel)

def readSlice [DecidableEq α] (delim : α) (r : Reader α) : Option (Slice α) :=
  sliceLoop delim (r.size + 1) r

structure Copied (α : Type) where
  done : List α
  finished : Bool
  reader : Reader α
  deriving DecidableEq, Repr

-- One read of the connection into an empty buffer, or past it into the
-- destination when that has room for more than the buffer.
def readNext (room : Nat) (r : Reader α) (chunk : List α) (rest : List (List α)) : Reader α :=
  let limit := if r.size ≤ room then room else r.size
  ⟨r.size, chunk.take limit, if chunk.length ≤ limit then rest else chunk.drop limit :: rest,
    r.taken + (chunk.take limit).length⟩

-- Copies a number of values to a destination, whose room depends on what it
-- holds. Only some reads return before the deadline.
def copyLoop (room : Nat → Nat) : Nat → Nat → List α → Reader α → Copied α
  | 0, n, done, r =>
    ⟨done ++ r.buffered.take n, n ≤ r.buffered.length, { r with buffered := r.buffered.drop n }⟩
  | reads + 1, n, done, r =>
    if n ≤ r.buffered.length then
      ⟨done ++ r.buffered.take n, true, { r with buffered := r.buffered.drop n }⟩
    else match r.arrivals with
      | [] => ⟨done ++ r.buffered, false, { r with buffered := [] }⟩
      | chunk :: rest =>
        copyLoop room reads (n - r.buffered.length) (done ++ r.buffered)
          (readNext (min (room (done ++ r.buffered).length) (n - r.buffered.length)) r chunk rest)

def copyN (room : Nat → Nat) (reads n : Nat) (r : Reader α) : Copied α := copyLoop room reads n [] r

-- The buffer holds what it has room for, and some read brings something before
-- the reader gives up.
structure Flowing (r : Reader α) : Prop where
  positive : 0 < r.size
  fits : r.buffered.length ≤ r.size
  noGap : ¬ List.replicate maxConsecutiveEmptyReads [] <:+: r.arrivals

structure Later (r r' : Reader α) : Prop where
  flowing : Flowing r'
  size : r'.size = r.size
  total : r'.total = r.total

theorem Later.trans {r r' r'' : Reader α} (h : Later r r') (h' : Later r' r'') : Later r r'' :=
  ⟨h'.flowing, h'.size.trans h.size, h'.total.trans h.total⟩

theorem Later.buffered {r : Reader α} (h : Flowing r) {buffered : List α}
    (hfits : buffered.length ≤ r.buffered.length) : Later r { r with buffered := buffered } :=
  ⟨⟨h.positive, hfits.trans h.fits, h.noGap⟩, rfl, rfl⟩

section Reading

variable {delim : α} {r r' : Reader α} {room tries : Nat} {arrivals : List (List α)}

theorem replicate_infix_cons {n : Nat} {chunk : List α} (hn : 0 < n) (hne : chunk ≠ [])
    (h : List.replicate n [] <:+: chunk :: arrivals) : List.replicate n [] <:+: arrivals := by
  rcases List.infix_cons_iff.mp h with hprefix | hpart
  · obtain ⟨n, rfl⟩ : ∃ k, n = k + 1 := ⟨n - 1, by omega⟩
    rw [List.replicate_succ, List.cons_prefix_cons] at hprefix
    exact absurd hprefix.1.symm hne
  · exact hpart

theorem readSome_some {read : List α × List (List α)} (hroom : 0 < room)
    (h : readSome room tries arrivals = some read) :
    read.1 ≠ [] ∧ read.1.length ≤ room ∧ arrivals.flatten = read.1 ++ read.2.flatten ∧
      ∀ n, 0 < n → List.replicate n [] <:+: read.2 → List.replicate n [] <:+: arrivals := by
  induction tries generalizing arrivals with
  | zero => cases h
  | succ tries ih =>
    match arrivals with
    | [] => cases h
    | [] :: rest =>
      obtain ⟨hne, hle, hflat, hpart⟩ := ih h
      exact ⟨hne, hle, hflat, fun n hn h => (hpart n hn h).trans (List.suffix_cons _ _).isInfix⟩
    | (a :: chunk) :: rest =>
      have hrest : rest <:+: (a :: chunk) :: rest := (List.suffix_cons _ _).isInfix
      rw [readSome] at h
      split_ifs at h with hfits
      · cases h
        exact ⟨List.cons_ne_nil _ _, hfits, rfl, fun n hn h => h.trans hrest⟩
      cases h
      have hleft : (a :: chunk).drop room ≠ [] := by
        rw [Ne, List.drop_eq_nil_iff, List.length_cons]
        omega
      refine ⟨?_, List.length_take_le _ _, ?_, fun n hn h => ?_⟩
      · rw [Ne]
        simp [Nat.pos_iff_ne_zero.mp hroom]
      · simp only [List.flatten_cons, ← List.append_assoc, List.take_append_drop]
      · exact (replicate_infix_cons hn hleft h).trans hrest

theorem readSome_none (h : readSome room tries arrivals = none) :
    arrivals.flatten = [] ∨ List.replicate tries [] <+: arrivals := by
  induction tries generalizing arrivals with
  | zero => exact .inr List.nil_prefix
  | succ tries ih =>
    match arrivals with
    | [] => exact .inl rfl
    | [] :: rest =>
      rcases ih h with hflat | hprefix
      · exact .inl hflat
      · exact .inr ((List.prefix_cons_inj []).mpr hprefix)
    | (a :: chunk) :: rest =>
      rw [readSome] at h
      split_ifs at h

theorem fill_some (hflow : Flowing r) (hroom : r.buffered.length < r.size) (h : fill r = some r') :
    r.buffered.length < r'.buffered.length ∧ r'.stream = r.stream ∧ Later r r' := by
  obtain ⟨read, hread, rfl⟩ := Option.map_eq_some_iff.mp h
  obtain ⟨hne, hle, hflat, hpart⟩ := readSome_some (by omega) hread
  have hpos := List.length_pos_of_ne_nil hne
  have hfits : (r.buffered ++ read.1).length ≤ r.size := by
    rw [List.length_append]
    omega
  refine ⟨?_, ?_, ⟨hflow.positive, hfits, fun hgap => hflow.noGap (hpart _ (by decide) hgap)⟩, rfl, ?_⟩
  · simp only [List.length_append]
    omega
  · simp only [Reader.stream, hflat, List.append_assoc]
  · simp only [Reader.total, hflat, List.length_append]
    omega

theorem fill_none (hflow : Flowing r) (h : fill r = none) : r.arrivals.flatten = [] := by
  rcases readSome_none (Option.map_eq_none_iff.mp h) with hflat | hprefix
  · exact hflat
  · exact absurd hprefix.isInfix hflow.noGap

variable [DecidableEq α] {fuel : Nat}

theorem sliceLoop_some {slice : Slice α} (hflow : Flowing r)
    (h : sliceLoop delim fuel r = some slice) :
    r.stream = slice.chunk ++ slice.reader.stream ∧ slice.chunk ≠ [] ∧ Later r slice.reader ∧
      (slice.complete = true → ∃ text, delim ∉ text ∧ slice.chunk = text ++ [delim]) ∧
      (slice.complete = false → delim ∉ slice.chunk) := by
  induction fuel generalizing r with
  | zero => cases h
  | succ fuel ih =>
    rw [sliceLoop] at h
    split_ifs at h with hmem hfull
    · cases h
      obtain ⟨text, rest, hsplit, hnot⟩ := List.eq_append_cons_of_mem hmem
      have hindex : r.buffered.idxOf delim = text.length := by
        rw [hsplit, List.idxOf_append_of_notMem hnot, List.idxOf_cons_self, Nat.add_zero]
      have hassoc : text ++ delim :: rest = (text ++ [delim]) ++ rest := by simp
      have hlength : text.length + 1 = (text ++ [delim]).length := by simp
      have htake : r.buffered.take (r.buffered.idxOf delim + 1) = text ++ [delim] := by
        rw [hindex, hsplit, hassoc, hlength, List.take_left]
      refine ⟨?_, ?_, .buffered hflow (List.drop_sublist _ _).length_le, fun _ => ⟨text, hnot, htake⟩,
        fun h => absurd h.symm Bool.false_ne_true⟩
      · simp only [Reader.stream, ← List.append_assoc, List.take_append_drop]
      · rw [htake]
        exact List.append_ne_nil_of_right_ne_nil _ (List.cons_ne_nil _ _)
    · cases h
      have hpos : 0 < r.buffered.length := hflow.positive.trans_le hfull
      exact ⟨rfl, List.ne_nil_of_length_pos hpos, .buffered hflow (Nat.zero_le _),
        fun h => absurd h Bool.false_ne_true, fun _ => hmem⟩
    · obtain ⟨r', hfill, h⟩ := Option.bind_eq_some_iff.mp h
      obtain ⟨hlt, hstream, hlater⟩ := fill_some hflow (by omega) hfill
      obtain ⟨hslice, hne, hlater', hcomplete, hpart⟩ := ih hlater.flowing h
      exact ⟨hstream ▸ hslice, hne, hlater.trans hlater', hcomplete, hpart⟩

theorem sliceLoop_none (hflow : Flowing r) (hfuel : r.size < fuel + r.buffered.length)
    (h : sliceLoop delim fuel r = none) : delim ∉ r.stream := by
  induction fuel generalizing r with
  | zero =>
    have := hflow.fits
    omega
  | succ fuel ih =>
    rw [sliceLoop] at h
    split_ifs at h with hmem hfull
    cases hfill : fill r with
    | none =>
      rw [Reader.stream, fill_none hflow hfill, List.append_nil]
      exact hmem
    | some r' =>
      obtain ⟨hlt, hstream, hlater⟩ := fill_some hflow (by omega) hfill
      rw [hfill] at h
      rw [← hstream]
      exact ih hlater.flowing (by rw [hlater.size]; omega) h

theorem readSlice_none (hflow : Flowing r) (h : readSlice delim r = none) : delim ∉ r.stream :=
  sliceLoop_none hflow (by omega) h

end Reading

section Copying

variable {r : Reader α} {n : Nat} {room : Nat → Nat}

-- In the middle of a copy there may be more than fits in the buffer, but no more
-- than what is copied next.
structure Copying (n : Nat) (r : Reader α) : Prop where
  positive : 0 < r.size
  fits : r.buffered.length ≤ r.size ∨ r.buffered.length ≤ n
  noGap : ¬ List.replicate maxConsecutiveEmptyReads [] <:+: r.arrivals

theorem Flowing.copying (h : Flowing r) : Copying n r := ⟨h.positive, .inl h.fits, h.noGap⟩

theorem Copying.later (h : Copying n r) : Later r { r with buffered := r.buffered.drop n } := by
  refine ⟨⟨h.positive, ?_, h.noGap⟩, rfl, rfl⟩
  have hfits := h.fits
  simp only [List.length_drop]
  omega

def Reader.readsLeft (r : Reader α) : Nat := r.arrivals.length + r.arrivals.flatten.length

theorem readNext_spec {room : Nat} {chunk : List α} {rest : List (List α)} (h : Copying n r)
    (harrivals : r.arrivals = chunk :: rest) (hroom : room ≤ n) :
    (readNext room r chunk rest).stream = r.arrivals.flatten ∧
      (readNext room r chunk rest).total = r.total ∧ Copying n (readNext room r chunk rest) ∧
      (readNext room r chunk rest).readsLeft < r.readsLeft := by
  have hpos := h.positive
  have hgap := h.noGap
  unfold readNext Reader.total Reader.readsLeft Reader.stream
  rw [harrivals] at hgap ⊢
  generalize hlimit : (if r.size ≤ room then room else r.size) = limit
  have hlimit_pos : 0 < limit := by
    rw [← hlimit]
    split_ifs <;> omega
  have hlimit_le : limit ≤ r.size ∨ limit ≤ n := by
    rw [← hlimit]
    split_ifs <;> omega
  have hflat : (chunk.take limit) ++
      (if chunk.length ≤ limit then rest else chunk.drop limit :: rest).flatten =
        chunk ++ rest.flatten := by
    split_ifs with hshort
    · rw [List.take_of_length_le hshort]
    · rw [List.flatten_cons, ← List.append_assoc, List.take_append_drop]
  have hlen := congrArg List.length hflat
  simp only [List.length_append] at hlen
  refine ⟨?_, ?_, ⟨hpos, ?_, ?_⟩, ?_⟩
  · simpa using hflat
  · simp only [List.flatten_cons, List.length_append]
    omega
  · have := List.length_take_le limit chunk
    simp only
    omega
  · simp only
    split_ifs with hshort
    · exact fun hpart => hgap (hpart.trans (List.suffix_cons _ _).isInfix)
    have hleft : chunk.drop limit ≠ [] := by
      rw [Ne, List.drop_eq_nil_iff]
      exact hshort
    exact fun hpart => hgap ((replicate_infix_cons (by decide) hleft hpart).trans
      (List.suffix_cons _ _).isInfix)
  · simp only [List.flatten_cons, List.length_append, List.length_cons]
    split_ifs at hlen ⊢ with hshort
    · omega
    · have := List.length_take_of_le (Nat.le_of_not_le hshort)
      simp only [List.length_cons]
      omega

theorem copyLoop_spec {reads : Nat} {done : List α} (h : Copying n r) (hreads : r.readsLeft ≤ reads) :
    ∃ r', copyLoop room reads n done r = ⟨done ++ r.stream.take n, n ≤ r.stream.length, r'⟩ ∧
      r'.stream = r.stream.drop n ∧ Later r r' := by
  induction reads generalizing n done r with
  | zero =>
    have hend : r.arrivals = [] := List.length_eq_zero_iff.mp (by unfold Reader.readsLeft at hreads; omega)
    have hstream : r.stream = r.buffered := by rw [Reader.stream, hend, List.flatten_nil, List.append_nil]
    refine ⟨_, ?_, ?_, h.later⟩
    · rw [copyLoop, hstream]
    · rw [Reader.stream, hend, hstream, List.flatten_nil, List.append_nil]
  | succ reads ih =>
    rw [copyLoop]
    split_ifs with hn
    · have hlen : n ≤ r.stream.length := by rw [Reader.stream, List.length_append]; omega
      refine ⟨_, ?_, ?_, h.later⟩
      · rw [Reader.stream, List.take_append_of_le_length hn, ← Reader.stream, decide_eq_true hlen]
      · rw [Reader.stream, Reader.stream, List.drop_append_of_le_length hn]
    · -- everything in the buffer is taken, and more is read if there is more
      have htake : r.stream.take n = r.buffered ++ r.arrivals.flatten.take (n - r.buffered.length) := by
        rw [Reader.stream, List.take_append, List.take_of_length_le (by omega)]
      have hdrop : r.stream.drop n = r.arrivals.flatten.drop (n - r.buffered.length) := by
        rw [Reader.stream, List.drop_append, List.drop_of_length_le (by omega), List.nil_append]
      have hlater : Later r { r with buffered := [] } := by
        have := h.later
        rwa [List.drop_of_length_le (by omega)] at this
      split
      · rename_i hend
        rw [hend] at htake hdrop
        refine ⟨_, ?_, ?_, hlater⟩
        · have hlen : ¬ n ≤ r.stream.length := by
            rw [Reader.stream, hend, List.flatten_nil, List.append_nil]
            exact hn
          rw [htake, decide_eq_false hlen]
          simp
        · rw [hdrop]
          simp [Reader.stream, hend]
      · rename_i chunk rest harrivals
        have hcopying : Copying (n - r.buffered.length) { r with buffered := [] } :=
          ⟨h.positive, .inl (Nat.zero_le _), h.noGap⟩
        obtain ⟨hstream, htotal, hcopying', hleft⟩ :=
          readNext_spec hcopying harrivals (Nat.min_le_right (room (done ++ r.buffered).length) _)
        obtain ⟨r', hloop, hrest, hlater'⟩ := ih hcopying' (by
          have : Reader.readsLeft { r with buffered := [] } = r.readsLeft := rfl
          omega)
        refine ⟨r', ?_, ?_, ?_⟩
        · rw [show readNext _ r chunk rest = readNext _ { r with buffered := [] } chunk rest from rfl, hloop,
            hstream, htake]
          have hlen : n ≤ r.stream.length ↔ n - r.buffered.length ≤ r.arrivals.flatten.length := by
            rw [Reader.stream, List.length_append]
            omega
          simp [hlen]
        · rw [hrest, hstream, hdrop]
        · exact ⟨hlater'.flowing, hlater'.size, hlater'.total.trans htotal⟩

-- However many reads return, nothing is lost.
theorem copyLoop_append (room : Nat → Nat) (reads n : Nat) (done : List α) (r : Reader α) :
    ∃ more, (copyLoop room reads n done r).done = done ++ more ∧ more.length ≤ n ∧
      more ++ (copyLoop room reads n done r).reader.stream = r.stream := by
  induction reads generalizing n done r with
  | zero =>
    refine ⟨r.buffered.take n, rfl, List.length_take_le n _, ?_⟩
    simp [copyLoop, Reader.stream, ← List.append_assoc]
  | succ reads ih =>
    rw [copyLoop]
    split_ifs with hn
    · refine ⟨r.buffered.take n, rfl, List.length_take_le n _, ?_⟩
      simp [Reader.stream, ← List.append_assoc]
    split
    · rename_i hend
      exact ⟨r.buffered, rfl, by omega, by simp [Reader.stream, hend]⟩
    · rename_i chunk rest harrivals
      generalize hnext : readNext _ r chunk rest = next
      have hstream : next.stream = r.arrivals.flatten := by
        rw [← hnext, harrivals, readNext, Reader.stream]
        dsimp only
        generalize (if r.size ≤ _ then _ else r.size) = limit
        split_ifs with hshort
        · rw [List.take_of_length_le hshort, List.flatten_cons]
        · rw [List.flatten_cons, List.flatten_cons, ← List.append_assoc, List.take_append_drop]
      obtain ⟨more, hdone, hmore, hsplit⟩ := ih (n - r.buffered.length) (done ++ r.buffered) next
      refine ⟨r.buffered ++ more, by rw [hdone, List.append_assoc], ?_, ?_⟩
      · rw [List.length_append]
        omega
      · rw [List.append_assoc, hsplit, hstream, Reader.stream]

theorem copyN_stream_iff (room : Nat → Nat) (reads n : Nat) (r : Reader α) :
    (copyN room reads n r).reader.stream = r.stream.drop n ↔
      min n r.stream.length ≤ (copyN room reads n r).done.length := by
  obtain ⟨more, hdone, hmore, hsplit⟩ := copyLoop_append room reads n [] r
  rw [List.nil_append, ← copyN] at hdone
  rw [← copyN, ← hdone] at hsplit
  rw [← hdone] at hmore
  have hlength := congrArg List.length hsplit
  rw [List.length_append] at hlength
  constructor
  · intro h
    have hrest := congrArg List.length h
    rw [List.length_drop] at hrest
    omega
  · intro h
    have hrest : r.stream.drop (copyN room reads n r).done.length = (copyN room reads n r).reader.stream := by
      conv_lhs => rw [← hsplit]
      exact List.drop_left
    rw [← hrest]
    rcases Nat.lt_or_ge r.stream.length n with hlong | hshort
    · rw [List.drop_of_length_le (by omega), List.drop_of_length_le (by omega)]
    · rw [show (copyN room reads n r).done.length = n by omega]

theorem copyN_spec {reads : Nat} (h : Flowing r) (hreads : r.readsLeft ≤ reads) :
    ∃ r', copyN room reads n r = ⟨r.stream.take n, n ≤ r.stream.length, r'⟩ ∧
      r'.stream = r.stream.drop n ∧ Later r r' :=
  copyLoop_spec h.copying hreads

end Copying

end Buffered
