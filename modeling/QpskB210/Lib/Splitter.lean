import Mathlib.Data.List.Infix

/-!
# Splitters

A `Splitter` takes messages off the front of a buffer that grows at its end,
one at a time, until it has to wait for more. `split` runs it as far as it
goes; `feed` is one round of a receive loop around it. `Reads` ties a
splitter to the encoding of the messages: then what is split off any prefix
of an encoded list depends on its length only, not on the pieces it arrived
in (`Reads.feed_chunks`, `Reads.split_prefix`).
-/

namespace QpskB210.Lib

/-- What a buffer holds at its front: nothing complete yet, a message, or
something that cannot be read. -/
inductive Pull (β α ε : Type) where
  | wait
  | took (a : α) (rest : List β)
  | trap (e : ε)

/-- Takes messages off the front of a buffer. A complete message is taken
as it is, whatever arrives after it. -/
structure Splitter (β α ε : Type) where
  next : List β → Pull β α ε
  nil : next [] = .wait
  shrinks : ∀ {buffer a rest}, next buffer = .took a rest → rest.length < buffer.length
  took_append : ∀ {buffer a rest} (more : List β), next buffer = .took a rest →
    next (buffer ++ more) = .took a (rest ++ more)

/-- The messages taken so far, and the buffer that is left unless the
splitter has trapped. -/
structure Splitting (β α ε : Type) where
  taken : List α := []
  left : Except ε (List β) := .ok []

/-- The messages go in front of those already taken. -/
def Splitting.after {β α ε : Type} (messages : List α) (s : Splitting β α ε) : Splitting β α ε :=
  { taken := messages ++ s.taken, left := s.left }

namespace Splitter

variable {β α ε : Type} (S : Splitter β α ε)

/-- At most `fuel` messages. -/
def splitUpTo : Nat → List β → Splitting β α ε
  | 0, buffer => { left := .ok buffer }
  | fuel + 1, buffer =>
    match S.next buffer with
    | .wait => { left := .ok buffer }
    | .trap e => { left := .error e }
    | .took a rest => (splitUpTo fuel rest).after [a]

/-- Every message that is complete. A message takes at least one item, so
the buffer's length bounds their number. -/
def split (buffer : List β) : Splitting β α ε := S.splitUpTo buffer.length buffer

/-- One round of a receive loop: append what arrived, and take what is
complete. -/
def feed (s : Splitting β α ε) (chunk : List β) : Splitting β α ε :=
  match s.left with
  | .error _ => s
  | .ok buffer => (S.split (buffer ++ chunk)).after s.taken

variable {S} {buffer rest : List β} {a : α} {e : ε}

theorem splitUpTo_eq {m n : Nat} (hm : buffer.length ≤ m) (hn : buffer.length ≤ n) :
    S.splitUpTo m buffer = S.splitUpTo n buffer := by
  induction m generalizing n buffer with
  | zero =>
      rw [List.length_eq_zero_iff.mp (Nat.le_zero.mp hm)]
      cases n with
      | zero => rfl
      | succ n => rw [splitUpTo, splitUpTo, S.nil]
  | succ m ih =>
      cases n with
      | zero =>
          rw [List.length_eq_zero_iff.mp (Nat.le_zero.mp hn)]
          rw [splitUpTo, splitUpTo, S.nil]
      | succ n =>
          rw [splitUpTo, splitUpTo]
          cases hnext : S.next buffer with
          | wait => rfl
          | trap e => rfl
          | took a rest =>
              have hrest := S.shrinks hnext
              dsimp only
              rw [ih (n := n) (by omega) (by omega)]

theorem split_wait (h : S.next buffer = .wait) : S.split buffer = { left := .ok buffer } := by
  rw [split]
  cases buffer.length with
  | zero => rfl
  | succ n => rw [splitUpTo, h]

theorem split_trap (h : S.next buffer = .trap e) : S.split buffer = { left := .error e } := by
  cases buffer with
  | nil =>
      rw [S.nil] at h
      cases h
  | cons b buffer => rw [split, List.length_cons, splitUpTo, h]

theorem split_took (h : S.next buffer = .took a rest) :
    S.split buffer = (S.split rest).after [a] := by
  have hlength := S.shrinks h
  obtain ⟨n, hn⟩ : ∃ n, buffer.length = n + 1 := ⟨buffer.length - 1, by omega⟩
  rw [split, hn, splitUpTo, h]
  dsimp only
  rw [splitUpTo_eq (n := rest.length) (by omega) (Nat.le_refl _)]
  rfl

@[simp] theorem split_nil : S.split [] = { } := rfl

/-- One case per answer of `next`, with what is left after a message smaller. -/
theorem split_induction {motive : List β → Prop}
    (wait : ∀ buffer, S.next buffer = .wait → motive buffer)
    (trap : ∀ buffer e, S.next buffer = .trap e → motive buffer)
    (took : ∀ buffer a rest, S.next buffer = .took a rest → motive rest → motive buffer)
    (buffer : List β) : motive buffer := by
  generalize hn : buffer.length = n
  induction n using Nat.strongRecOn generalizing buffer with
  | ind n ih =>
      cases hnext : S.next buffer with
      | wait => exact wait buffer hnext
      | trap e => exact trap buffer e hnext
      | took a rest =>
          have hrest : rest.length < n := hn ▸ S.shrinks hnext
          exact took buffer a rest hnext (ih rest.length hrest rest rfl)

/-- What is left waits for more. -/
theorem wait_of_split {x left : List β} (h : (S.split x).left = .ok left) :
    S.next left = .wait := by
  induction x using S.split_induction with
  | wait x hnext =>
      rw [split_wait hnext] at h
      cases h
      exact hnext
  | trap x e hnext =>
      rw [split_trap hnext] at h
      cases h
  | took x a rest hnext ih =>
      rw [split_took hnext] at h
      exact ih h

/-! ## Chunks -/

theorem feed_error {s : Splitting β α ε} (h : s.left = .error e) (chunk : List β) :
    S.feed s chunk = s := by
  rw [feed, h]

theorem feed_ok {s : Splitting β α ε} (h : s.left = .ok buffer) (chunk : List β) :
    S.feed s chunk = (S.split (buffer ++ chunk)).after s.taken := by
  rw [feed, h]

theorem feed_after (messages : List α) (s : Splitting β α ε) (chunk : List β) :
    S.feed (s.after messages) chunk = (S.feed s chunk).after messages := by
  have hafter : (s.after messages).left = s.left := rfl
  cases hleft : s.left with
  | error e => rw [feed_error hleft, feed_error (hafter.trans hleft)]
  | ok buffer =>
      rw [feed_ok hleft, feed_ok (hafter.trans hleft)]
      simp only [Splitting.after, List.append_assoc]

theorem feeds_after (messages : List α) (s : Splitting β α ε) (chunks : List (List β)) :
    chunks.foldl S.feed (s.after messages) = (chunks.foldl S.feed s).after messages := by
  induction chunks generalizing s with
  | nil => rfl
  | cons chunk chunks ih => rw [List.foldl_cons, List.foldl_cons, feed_after, ih]

theorem taken_feed (s : Splitting β α ε) (chunk : List β) : s.taken <+: (S.feed s chunk).taken := by
  cases hleft : s.left with
  | error e => rw [feed_error hleft]
  | ok buffer =>
      rw [feed_ok hleft]
      exact List.prefix_append _ _

theorem taken_feeds (s : Splitting β α ε) (chunks : List (List β)) :
    s.taken <+: (chunks.foldl S.feed s).taken := by
  induction chunks generalizing s with
  | nil => exact List.prefix_rfl
  | cons chunk chunks ih => exact (taken_feed s chunk).trans (ih _)

/-- What arrives later is split as if it had been there at once, unless the
splitter trapped before. -/
theorem feed_split {x left : List β} (h : (S.split x).left = .ok left) (y : List β) :
    S.feed (S.split x) y = S.split (x ++ y) := by
  induction x using S.split_induction with
  | wait x hnext =>
      rw [split_wait hnext, feed_ok rfl]
      rfl
  | trap x e hnext =>
      rw [split_trap hnext] at h
      cases h
  | took x a rest hnext ih =>
      rw [split_took hnext] at h ⊢
      rw [split_took (S.took_append y hnext), feed_after, ih h]

/-! ## Encoded messages -/

/-- The splitter takes off the encodings of the messages with `ok`, and
nothing that is not an encoding. -/
structure Reads (S : Splitter β α ε) (enc : α → List β) (ok : α → Prop) : Prop where
  took : ∀ a, ok a → ∀ more, S.next (enc a ++ more) = .took a more
  wait : ∀ a, ok a → ∀ buffer, buffer <+: enc a → buffer.length < (enc a).length →
    S.next buffer = .wait
  only : ∀ {buffer a rest}, S.next buffer = .took a rest → buffer = enc a ++ rest

/-- The messages whose encodings lie wholly inside the first `n` items. -/
def whole (enc : α → List β) : List α → Nat → List α
  | [], _ => []
  | a :: as, n => if (enc a).length ≤ n then a :: whole enc as (n - (enc a).length) else []

variable {enc : α → List β} {ok : α → Prop} {as : List α}

namespace Reads

variable (h : S.Reads enc ok)
include h

theorem split_enc_append (hok : ∀ a ∈ as, ok a) (more : List β) :
    S.split (as.flatMap enc ++ more) = (S.split more).after as := by
  induction as with
  | nil => rfl
  | cons a as ih =>
      rw [List.flatMap_cons, List.append_assoc,
        split_took (h.took a (hok a List.mem_cons_self) _),
        ih fun a' ha' => hok a' (List.mem_cons_of_mem a ha')]
      rfl

theorem split_enc (hok : ∀ a ∈ as, ok a) : S.split (as.flatMap enc) = { taken := as } := by
  have hsplit := h.split_enc_append hok []
  rwa [List.append_nil, split_nil, Splitting.after, List.append_nil] at hsplit

/-- **Prefixes.** Of any prefix of an encoded list, exactly the messages that
lie wholly inside it are taken, and exactly the items after them are left. -/
theorem split_prefix (hok : ∀ a ∈ as, ok a) {x : List β} (hx : x <+: as.flatMap enc) :
    S.split x =
      { taken := whole enc as x.length
        left := .ok (x.drop ((whole enc as x.length).flatMap enc).length) } := by
  induction as generalizing x with
  | nil =>
      rw [List.flatMap_nil] at hx
      rw [List.prefix_nil.mp hx]
      rfl
  | cons a as ih =>
      have hoka := hok a List.mem_cons_self
      rw [List.flatMap_cons] at hx
      by_cases hle : (enc a).length ≤ x.length
      · -- the first message is complete, and the rest is a prefix again
        obtain ⟨rest, rfl⟩ : enc a <+: x :=
          List.prefix_of_prefix_length_le (List.prefix_append _ _) hx hle
        have hrest := ih (fun a' ha' => hok a' (List.mem_cons_of_mem a ha'))
          ((List.prefix_append_right_inj _).mp hx)
        have hlength : (enc a ++ rest).length - (enc a).length = rest.length := by
          rw [List.length_append]
          omega
        rw [split_took (h.took a hoka rest), hrest, whole, if_pos hle, hlength]
        rw [List.flatMap_cons, List.length_append, List.drop_length_add_append]
        rfl
      · have hpre : x <+: enc a :=
          List.prefix_of_prefix_length_le hx (List.prefix_append _ _) (by omega)
        rw [split_wait (h.wait a hoka x hpre (by omega)), whole, if_neg hle]
        rfl

/-- Of what has arrived of encoded messages with a part of one behind them,
the complete ones are taken; what is left and what is still to come are the
others and the part. -/
theorem split_part (hok : ∀ a ∈ as, ok a) {part : List β}
    (hpart : part = [] ∨ ∃ a, ok a ∧ part <+: enc a ∧ part.length < (enc a).length)
    {x more : List β} (hx : x ++ more = as.flatMap enc ++ part) :
    ∃ front rest left, as = front ++ rest ∧ S.split x = { taken := front, left := .ok left } ∧
      left ++ more = rest.flatMap enc ++ part := by
  induction as generalizing x with
  | nil =>
      refine ⟨[], [], x, rfl, split_wait ?_, hx⟩
      have hpre : x <+: part := ⟨more, hx⟩
      rcases hpart with rfl | ⟨a, ha, hprefix, hshort⟩
      · rw [List.prefix_nil.mp hpre]
        exact S.nil
      · exact h.wait a ha x (hpre.trans hprefix) (hpre.length_le.trans_lt hshort)
  | cons a as ih =>
      have hoka := hok a List.mem_cons_self
      rw [List.flatMap_cons, List.append_assoc] at hx
      by_cases hle : (enc a).length ≤ x.length
      · obtain ⟨x', rfl⟩ : enc a <+: x :=
          List.prefix_of_prefix_length_le ⟨_, hx.symm⟩ (List.prefix_append _ _) hle
        rw [List.append_assoc, List.append_cancel_left_eq] at hx
        obtain ⟨front, rest, left, rfl, hsplit, hleft⟩ :=
          ih (fun a' ha' => hok a' (List.mem_cons_of_mem a ha')) hx
        refine ⟨a :: front, rest, left, rfl, ?_, hleft⟩
        rw [split_took (h.took a hoka x'), hsplit]
        rfl
      · have hpre : x <+: enc a :=
          List.prefix_of_prefix_length_le (List.prefix_append _ _) ⟨_, hx.symm⟩ (by omega)
        refine ⟨[], a :: as, x, rfl, split_wait (h.wait a hoka x hpre (by omega)), ?_⟩
        rw [hx, List.flatMap_cons, List.append_assoc]

/-- An encoded message in front of encoded messages and a part of one is the
first of them. -/
theorem head_of_append (hok : ∀ a ∈ as, ok a) {part : List β}
    (hpart : part = [] ∨ ∃ a, ok a ∧ part <+: enc a ∧ part.length < (enc a).length) {a : α}
    (ha : ok a) {x : List β} (hx : enc a ++ x = as.flatMap enc ++ part) :
    ∃ rest, as = a :: rest ∧ x = rest.flatMap enc ++ part := by
  have htook := h.took a ha x
  rw [hx] at htook
  cases as with
  | nil =>
      rcases hpart with rfl | ⟨a', ha', hprefix, hshort⟩
      · rw [List.flatMap_nil, List.append_nil, S.nil] at htook
        cases htook
      · rw [List.flatMap_nil, List.nil_append, h.wait a' ha' part hprefix hshort] at htook
        cases htook
  | cons a' rest =>
      rw [List.flatMap_cons, List.append_assoc, h.took a' (hok a' List.mem_cons_self)] at htook
      cases htook
      exact ⟨rest, rfl, rfl⟩

/-- **Chunks.** However a prefix of an encoded list arrives, the loop ends
as if all of it had been there at once. -/
theorem feed_chunks (hok : ∀ a ∈ as, ok a) {x : List β} {chunks : List (List β)}
    (hx : x ++ chunks.flatten <+: as.flatMap enc) :
    chunks.foldl S.feed (S.split x) = S.split (x ++ chunks.flatten) := by
  induction chunks generalizing x with
  | nil => rw [List.flatten_nil, List.append_nil, List.foldl_nil]
  | cons chunk chunks ih =>
      rw [List.flatten_cons, ← List.append_assoc] at hx ⊢
      have hfirst := h.split_prefix hok (((List.prefix_append x chunk).trans
        (List.prefix_append _ _)).trans hx)
      rw [List.foldl_cons, feed_split (by rw [hfirst]), ih hx]

/-- Messages at the front of a stream are taken whatever comes after them. -/
theorem prefix_taken (hok : ∀ a ∈ as, ok a) {x more : List β} {chunks : List (List β)}
    (hx : x <+: as.flatMap enc) (hall : x ++ chunks.flatten = as.flatMap enc ++ more) :
    as <+: (chunks.foldl S.feed (S.split x)).taken := by
  induction chunks generalizing x with
  | nil =>
      rw [List.flatten_nil, List.append_nil] at hall
      rw [List.foldl_nil, hall, h.split_enc_append hok]
      exact List.prefix_append _ _
  | cons chunk chunks ih =>
      rw [List.flatten_cons, ← List.append_assoc] at hall
      rw [List.foldl_cons, feed_split (by rw [h.split_prefix hok hx])]
      rcases Nat.le_total (x ++ chunk).length (as.flatMap enc).length with hle | hle
      · exact ih (List.prefix_of_prefix_length_le ⟨_, hall⟩ (List.prefix_append _ _) hle) hall
      · -- this chunk brings the last of them
        obtain ⟨tail, htail⟩ : as.flatMap enc <+: x ++ chunk :=
          List.prefix_of_prefix_length_le (List.prefix_append _ _) ⟨_, hall⟩ hle
        rw [← htail, h.split_enc_append hok]
        have hfirst : as <+: ((S.split tail).after as).taken := List.prefix_append _ _
        exact hfirst.trans (taken_feeds _ chunks)

/-- What has been taken, put back in front of what is left. -/
theorem split_only (x : List β) :
    ∃ tail, x = (S.split x).taken.flatMap enc ++ tail ∧
      ∀ left, (S.split x).left = .ok left → left = tail := by
  induction x using S.split_induction with
  | wait x hnext =>
      rw [split_wait hnext]
      exact ⟨x, rfl, fun _ h => (Except.ok.inj h).symm⟩
  | trap x e hnext =>
      rw [split_trap hnext]
      exact ⟨x, rfl, nofun⟩
  | took x a rest hnext ih =>
      obtain ⟨tail, hrest, hleft⟩ := ih
      rw [split_took hnext]
      refine ⟨tail, ?_, hleft⟩
      show x = (a :: (S.split rest).taken).flatMap enc ++ tail
      rw [List.flatMap_cons, List.append_assoc, ← hrest, h.only hnext]

/-- What the loop has taken is the front of what it has read. -/
theorem feeds_only {s : Splitting β α ε} {x : List β} (chunks : List (List β))
    (hs : ∃ tail, x = s.taken.flatMap enc ++ tail ∧ ∀ left, s.left = .ok left → left = tail) :
    (chunks.foldl S.feed s).taken.flatMap enc <+: x ++ chunks.flatten := by
  induction chunks generalizing s x with
  | nil =>
      obtain ⟨tail, rfl, -⟩ := hs
      rw [List.flatten_nil, List.append_nil]
      exact List.prefix_append _ _
  | cons chunk chunks ih =>
      rw [List.foldl_cons, List.flatten_cons, ← List.append_assoc]
      apply ih
      obtain ⟨tail, rfl, hleft⟩ := hs
      cases hbuffer : s.left with
      | error e =>
          refine ⟨tail ++ chunk, ?_, ?_⟩
          · rw [feed_error hbuffer, List.append_assoc]
          · rw [feed_error hbuffer, hbuffer]
            exact nofun
      | ok buffer =>
          obtain ⟨rest, hrest, hleft'⟩ := h.split_only (buffer ++ chunk)
          rw [feed_ok hbuffer]
          refine ⟨rest, ?_, hleft'⟩
          rw [Splitting.after, List.flatMap_append, List.append_assoc, List.append_assoc, ← hrest,
            hleft buffer hbuffer]

/-- What follows encoded messages in a list of encoded messages is one too. -/
theorem enc_of_append (hok : ∀ a ∈ as, ok a) {front : List α} (hfront : ∀ a ∈ front, ok a)
    {x : List β} (hall : front.flatMap enc ++ x = as.flatMap enc) :
    ∃ tail : List α, (∀ a ∈ tail, ok a) ∧ x = tail.flatMap enc := by
  have hsplit := h.split_enc_append hfront x
  rw [hall, h.split_enc hok] at hsplit
  have htaken : as = front ++ (S.split x).taken := congrArg Splitting.taken hsplit
  have hleft : Except.ok [] = (S.split x).left := congrArg Splitting.left hsplit
  obtain ⟨tail, hx, hrest⟩ := h.split_only x
  refine ⟨(S.split x).taken, fun a ha => hok a ?_, ?_⟩
  · rw [htaken]
    exact List.mem_append_right _ ha
  · rw [← hrest [] hleft.symm, List.append_nil] at hx
    exact hx

end Reads

end Splitter

end QpskB210.Lib
