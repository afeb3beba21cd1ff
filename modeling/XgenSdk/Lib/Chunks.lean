import Mathlib.Data.List.Basic

/-! Readers that hand their data over in pieces of any size, and the buffer that
holds the last `k` items of a stream back. -/
namespace XgenSdk.Chunks
variable {α : Type}

/-- What is left to read. The next read hands over at most one item more than
the next entry of `short` says, and everything asked for where the entry is `none`. -/
structure Reader (α : Type) where
  data : List α
  short : List (Option Nat)

def Reader.full (data : List α) : Reader α := ⟨data, []⟩

namespace Reader

def allowance (n : Nat) (r : Reader α) : Nat :=
  match r.short with
  | some m :: _ => min n (m + 1)
  | _ => n

def read (n : Nat) (r : Reader α) : List α × Reader α :=
  (r.data.take (r.allowance n), ⟨r.data.drop (r.allowance n), r.short.tail⟩)

theorem allowance_pos {n : Nat} (hn : 0 < n) (r : Reader α) : 0 < r.allowance n := by
  unfold allowance
  split
  · omega
  · exact hn

/-- A read that is not short takes what it asked for off the front. -/
theorem read_append {n : Nat} {first rest : List α} {short : List (Option Nat)} (hn : first.length = n)
    (hnone : ∀ m ∈ short.take 1, m = none) :
    (⟨first ++ rest, short⟩ : Reader α).read n = (first, ⟨rest, short.tail⟩) := by
  have hallow : (⟨first ++ rest, short⟩ : Reader α).allowance n = n := by
    match short with
    | [] => rfl
    | none :: _ => rfl
    | some m :: _ => exact absurd (hnone (some m) (by simp)) (by simp)
  rw [read, hallow, ← hn, List.take_left, List.drop_left]

/-- Up to `fuel` reads of `n` items each, until one is empty. -/
def drain (n : Nat) : Nat → Reader α → List (List α)
  | 0, _ => []
  | fuel + 1, r =>
    match r.read n with
    | ([], _) => []
    | (chunk, rest) => chunk :: drain n fuel rest

/-- `while chunk := reader.read(n)`; no more reads than items are not empty. -/
def chunks (n : Nat) (r : Reader α) : List (List α) := drain n r.data.length r

theorem drain_flatten {n : Nat} (hn : 0 < n) (fuel : Nat) (r : Reader α) (hf : r.data.length ≤ fuel) :
    (drain n fuel r).flatten = r.data := by
  induction fuel generalizing r with
  | zero =>
    have hnil : r.data = [] := List.length_eq_zero_iff.mp (by omega)
    simp [drain, hnil]
  | succ fuel ih =>
    have hpos := r.allowance_pos hn
    simp only [drain, read]
    split
    · rename_i hread
      have htake : r.data.take (r.allowance n) = [] := congrArg Prod.fst hread
      have hnil : r.data = [] := (List.take_eq_nil_iff.mp htake).resolve_left (by omega)
      simp [hnil]
    · rename_i chunk rest hne hread
      have hchunk : r.data.take (r.allowance n) = chunk := congrArg Prod.fst hread
      have hrest : (⟨r.data.drop (r.allowance n), r.short.tail⟩ : Reader α) = rest :=
        congrArg Prod.snd hread
      subst hrest
      have hlen : (r.data.drop (r.allowance n)).length ≤ fuel := by
        rw [List.length_drop]
        omega
      rw [List.flatten_cons, ih _ hlen, ← hchunk]
      exact List.take_append_drop _ _

/-- The chunks of a reader are its data, however it splits them. -/
theorem chunks_flatten {n : Nat} (hn : 0 < n) (r : Reader α) : (r.chunks n).flatten = r.data :=
  drain_flatten hn _ r (Nat.le_refl _)

end Reader

/-- The items a buffer lets go of when it keeps the last `k`, and those it keeps. -/
def release (k : Nat) (buffer : List α) : List α := buffer.take (buffer.length - k)

def keep (k : Nat) (buffer : List α) : List α := buffer.drop (buffer.length - k)

@[simp] theorem release_append_keep (k : Nat) (buffer : List α) :
    release k buffer ++ keep k buffer = buffer := List.take_append_drop _ _

@[simp] theorem length_keep (k : Nat) (buffer : List α) : (keep k buffer).length = min k buffer.length := by
  simp only [keep, List.length_drop]
  omega

theorem release_append {k : Nat} (body : List α) {trailer : List α} (h : trailer.length = k) :
    release k (body ++ trailer) = body := by
  simp [release, h]

theorem keep_append {k : Nat} (body : List α) {trailer : List α} (h : trailer.length = k) :
    keep k (body ++ trailer) = trailer := by
  simp [keep, h]

/-- What was let go of and what is kept determine each other's place in the stream. -/
theorem split_unique {k : Nat} {released kept buffer : List α} (h : released ++ kept = buffer)
    (hk : kept.length = min k buffer.length) : released = release k buffer ∧ kept = keep k buffer := by
  have hlen : released.length = (release k buffer).length := by
    have htotal := congrArg List.length h
    simp only [List.length_append] at htotal
    simp only [release, List.length_take]
    omega
  exact List.append_inj (h.trans (release_append_keep k buffer).symm) hlen

/-- The pieces a hold-back buffer lets go of while chunks come in, and what it ends with. -/
def holdBack (k : Nat) (buffer : List α) : List (List α) → List (List α) × List α
  | [] => ([], buffer)
  | chunk :: rest =>
    if k < (buffer ++ chunk).length then
      let after := holdBack k (keep k (buffer ++ chunk)) rest
      (release k (buffer ++ chunk) :: after.1, after.2)
    else holdBack k (buffer ++ chunk) rest

theorem holdBack_flatten (k : Nat) (buffer : List α) (chunks : List (List α)) :
    (holdBack k buffer chunks).1.flatten ++ (holdBack k buffer chunks).2 = buffer ++ chunks.flatten := by
  induction chunks generalizing buffer with
  | nil => simp [holdBack]
  | cons chunk rest ih =>
    unfold holdBack
    split
    · rw [List.flatten_cons, List.append_assoc, ih, ← List.append_assoc, release_append_keep,
        List.flatten_cons, List.append_assoc]
    · rw [ih, List.flatten_cons, List.append_assoc]

theorem length_holdBack (k : Nat) (buffer : List α) (chunks : List (List α)) (hb : buffer.length ≤ k) :
    (holdBack k buffer chunks).2.length = min k (buffer ++ chunks.flatten).length := by
  induction chunks generalizing buffer with
  | nil => simp [holdBack, Nat.min_eq_right hb]
  | cons chunk rest ih =>
    unfold holdBack
    split
    · rename_i hlt
      have hkept : (keep k (buffer ++ chunk)).length ≤ k := by
        rw [length_keep]
        exact Nat.min_le_left _ _
      rw [ih _ hkept]
      simp only [List.length_append, length_keep, List.flatten_cons] at hlt ⊢
      omega
    · rename_i hle
      rw [ih _ (by omega), List.flatten_cons, List.append_assoc]

/-- The pieces let go of are all but the last `k` items, the rest is kept. -/
theorem holdBack_chunks (k : Nat) (chunks : List (List α)) :
    (holdBack k [] chunks).1.flatten = release k chunks.flatten ∧
      (holdBack k [] chunks).2 = keep k chunks.flatten := by
  have hlen := length_holdBack k [] chunks (by simp)
  exact split_unique (holdBack_flatten k [] chunks) (by simpa using hlen)

end XgenSdk.Chunks
