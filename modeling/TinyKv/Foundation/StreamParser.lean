import Mathlib.Data.List.Basic

/-!
# Incremental parsers and the independence of chunk boundaries

A stream parser looks at the bytes received so far and either waits for more,
rejects them, or takes one item off the front. Its answer, once it is not to wait,
must survive any continuation of the input. Then parsing a stream in chunks, with
the unparsed rest kept between chunks, yields the same items as parsing it whole.
-/

namespace TinyKv.Foundation

/-- The answer of a parser about the front of its input. -/
inductive Next (α β : Type*) where
  | more
  | bad
  | item (value : β) (rest : List α)

/-- A parser whose answers are stable under continuation. -/
structure StreamParser (α β : Type*) where
  next : List α → Next α β
  consumes : ∀ {xs b rest}, next xs = .item b rest → rest.length < xs.length
  item_append : ∀ {xs b rest}, next xs = .item b rest →
    ∀ ys, next (xs ++ ys) = .item b (rest ++ ys)
  bad_append : ∀ {xs}, next xs = .bad → ∀ ys, next (xs ++ ys) = .bad

/-- The items taken off the front, the unparsed rest, and whether the rest was
rejected rather than incomplete. -/
structure Drained (α β : Type*) where
  items : List β
  rest : List α
  rejected : Bool

namespace StreamParser

variable {α β : Type*} (P : StreamParser α β)

/-- Take items off the front, at most `fuel` of them. -/
def drainLoop : Nat → List α → Drained α β
  | 0, xs => ⟨[], xs, false⟩
  | fuel + 1, xs =>
      match P.next xs with
      | .more => ⟨[], xs, false⟩
      | .bad => ⟨[], xs, true⟩
      | .item b rest =>
          let d := drainLoop fuel rest
          ⟨b :: d.items, d.rest, d.rejected⟩

/-- Take every item off the front. -/
def drain (xs : List α) : Drained α β := P.drainLoop (xs.length + 1) xs

/-- Fuel beyond the length of the input is irrelevant. -/
theorem drainLoop_eq {n : Nat} {xs : List α} (h : xs.length < n) :
    P.drainLoop n xs = P.drain xs := by
  induction n using Nat.strongRecOn generalizing xs with
  | ind n ih =>
      obtain ⟨k, rfl⟩ := Nat.exists_eq_succ_of_ne_zero (Nat.ne_zero_of_lt h)
      cases hnext : P.next xs with
      | more => simp [drain, drainLoop, hnext]
      | bad => simp [drain, drainLoop, hnext]
      | item b rest =>
          have hlt := P.consumes hnext
          have hk : P.drainLoop k rest = P.drain rest := ih k (by omega) (by omega)
          have hxs : P.drainLoop xs.length rest = P.drain rest := by
            obtain hlen | hlen := Nat.lt_or_ge xs.length (k + 1)
            · exact ih xs.length hlen hlt
            · omega
          simp [drain, drainLoop, hnext, hk, hxs]

theorem drain_more {xs : List α} (h : P.next xs = .more) : P.drain xs = ⟨[], xs, false⟩ := by
  simp [drain, drainLoop, h]

theorem drain_bad {xs : List α} (h : P.next xs = .bad) : P.drain xs = ⟨[], xs, true⟩ := by
  simp [drain, drainLoop, h]

theorem drain_item {xs rest : List α} {b : β} (h : P.next xs = .item b rest) :
    P.drain xs = ⟨b :: (P.drain rest).items, (P.drain rest).rest, (P.drain rest).rejected⟩ := by
  simp [drain, drainLoop, h, P.drainLoop_eq (P.consumes h)]

/-- An induction along the items of a stream. -/
theorem drain_induction {motive : List α → Prop}
    (more : ∀ xs, P.next xs = .more → motive xs)
    (bad : ∀ xs, P.next xs = .bad → motive xs)
    (item : ∀ xs b rest, P.next xs = .item b rest → motive rest → motive xs)
    (xs : List α) : motive xs := by
  induction hn : xs.length using Nat.strongRecOn generalizing xs with
  | ind n ih =>
      cases hnext : P.next xs with
      | more => exact more xs hnext
      | bad => exact bad xs hnext
      | item b rest => exact item xs b rest hnext (ih _ (hn ▸ P.consumes hnext) rest rfl)

/-- The rest of a drained stream is one the parser waits on or rejects. -/
theorem next_drain_rest (xs : List α) :
    P.next (P.drain xs).rest = if (P.drain xs).rejected then .bad else .more := by
  induction xs using P.drain_induction with
  | more xs h => simp [P.drain_more h, h]
  | bad xs h => simp [P.drain_bad h, h]
  | item xs b rest h ih => simpa [P.drain_item h] using ih

/-- Parsing a stream whose prefix has been rejected. -/
theorem drain_append_of_rejected {xs : List α} (h : (P.drain xs).rejected = true)
    (ys : List α) :
    P.drain (xs ++ ys) = ⟨(P.drain xs).items, (P.drain xs).rest ++ ys, true⟩ := by
  induction xs using P.drain_induction with
  | more xs hnext => simp [P.drain_more hnext] at h
  | bad xs hnext => simp [P.drain_bad hnext, P.drain_bad (P.bad_append hnext ys)]
  | item xs b rest hnext ih =>
      simp only [P.drain_item hnext] at h
      simp [P.drain_item hnext, P.drain_item (P.item_append hnext ys), ih h]

/-- Parsing a stream is parsing a prefix, then its rest with the remaining input. -/
theorem drain_append {xs : List α} (h : (P.drain xs).rejected = false) (ys : List α) :
    P.drain (xs ++ ys) =
      ⟨(P.drain xs).items ++ (P.drain ((P.drain xs).rest ++ ys)).items,
        (P.drain ((P.drain xs).rest ++ ys)).rest,
        (P.drain ((P.drain xs).rest ++ ys)).rejected⟩ := by
  induction xs using P.drain_induction with
  | more xs hnext => simp [P.drain_more hnext]
  | bad xs hnext => simp [P.drain_bad hnext] at h
  | item xs b rest hnext ih =>
      simp only [P.drain_item hnext] at h
      simp [P.drain_item hnext, P.drain_item (P.item_append hnext ys), ih h]

/-- A stream whose parse is not rejected has no rejected prefix. -/
theorem rejected_of_append {xs ys : List α} (h : (P.drain (xs ++ ys)).rejected = false) :
    (P.drain xs).rejected = false := by
  by_contra hne
  rw [Bool.not_eq_false] at hne
  rw [P.drain_append_of_rejected hne] at h
  cases h

/-- With an inverse of the item step, the items and the rest rebuild the stream. -/
theorem drain_rebuild {encode : β → List α}
    (hencode : ∀ {xs b rest}, P.next xs = .item b rest → xs = encode b ++ rest) (xs : List α) :
    xs = (P.drain xs).items.flatMap encode ++ (P.drain xs).rest := by
  induction xs using P.drain_induction with
  | more xs h => simp [P.drain_more h]
  | bad xs h => simp [P.drain_bad h]
  | item xs b rest h ih =>
      rw [P.drain_item h]
      simp only [List.flatMap_cons, List.append_assoc, ← ih]
      exact hencode h

/-- Draining a concatenation of encoded items yields the items. -/
theorem drain_encoded {encode : β → List α} {items : List β}
    (hitem : ∀ b ∈ items, ∀ ys, P.next (encode b ++ ys) = .item b ys) (ys : List α) :
    P.drain (items.flatMap encode ++ ys) =
      ⟨items ++ (P.drain ys).items, (P.drain ys).rest, (P.drain ys).rejected⟩ := by
  induction items with
  | nil => simp
  | cons b rest ih =>
      have hrest := ih fun c hc => hitem c (List.mem_cons_of_mem b hc)
      have hb := hitem b (List.mem_cons_self ..) (rest.flatMap encode ++ ys)
      rw [List.flatMap_cons, List.append_assoc, P.drain_item hb, hrest]
      rfl

/-- In a prefix of a concatenation of encoded items, what is left over is part of one of
them. -/
theorem length_rest_of_prefix {encode : β → List α} {items : List β}
    (hitem : ∀ b ∈ items, ∀ ys, P.next (encode b ++ ys) = .item b ys) {xs : List α}
    (h : xs <+: items.flatMap encode) :
    (P.drain xs).rest = [] ∨ ∃ b ∈ items, (P.drain xs).rest.length < (encode b).length := by
  induction xs using P.drain_induction generalizing items with
  | more xs hnext =>
      rw [P.drain_more hnext]
      cases items with
      | nil => exact .inl (List.prefix_nil.mp h)
      | cons b items =>
          refine .inr ⟨b, List.mem_cons_self .., ?_⟩
          by_contra hlong
          rw [List.flatMap_cons] at h
          -- a stream with room for the first item starts with it
          obtain ⟨tail, htail⟩ :=
            List.prefix_of_prefix_length_le (List.prefix_append ..) h (Nat.le_of_not_lt hlong)
          rw [← htail, hitem b (List.mem_cons_self ..)] at hnext
          cases hnext
  | bad xs hnext =>
      obtain ⟨tail, htail⟩ := h
      have hbad := P.bad_append hnext tail
      rw [htail] at hbad
      cases items with
      | nil =>
          left
          rw [P.drain_bad hnext]
          exact (List.append_eq_nil_iff.mp htail).1
      | cons b items =>
          rw [List.flatMap_cons, hitem b (List.mem_cons_self ..)] at hbad
          cases hbad
  | item xs b rest hnext ih =>
      obtain ⟨tail, htail⟩ := h
      have hfirst := P.item_append hnext tail
      rw [htail] at hfirst
      cases items with
      | nil =>
          rw [(List.append_eq_nil_iff.mp htail).1] at hnext
          have := P.consumes hnext
          cases this
      | cons c items =>
          rw [List.flatMap_cons, hitem c (List.mem_cons_self ..)] at hfirst
          obtain ⟨rfl, hmore⟩ := Next.item.inj hfirst
          rw [P.drain_item hnext]
          have hitem' : ∀ b ∈ items, ∀ ys, P.next (encode b ++ ys) = .item b ys :=
            fun b hb => hitem b (List.mem_cons_of_mem _ hb)
          apply (ih hitem' ⟨tail, hmore.symm⟩).imp id
          rintro ⟨b, hb, hlt⟩
          exact ⟨b, List.mem_cons_of_mem _ hb, hlt⟩

/-- A part of an encoded item is waited on. -/
theorem next_of_part {encode : β → List α} {b : β} {xs more : List α}
    (hencode : ∀ {xs b rest}, P.next xs = .item b rest → xs = encode b ++ rest)
    (hitem : ∀ ys, P.next (encode b ++ ys) = .item b ys) (h : xs <+: encode b ++ more)
    (hlt : xs.length < (encode b).length) : P.next xs = .more := by
  obtain ⟨tail, htail⟩ := h
  cases hnext : P.next xs with
  | more => rfl
  | bad =>
      have hbad := P.bad_append hnext tail
      rw [htail, hitem] at hbad
      cases hbad
  | item c rest =>
      have hwhole := P.item_append hnext tail
      rw [htail, hitem] at hwhole
      obtain ⟨rfl, -⟩ := Next.item.inj hwhole
      have hlen := congrArg List.length (hencode hnext)
      rw [List.length_append] at hlen
      omega

/-- A prefix of a concatenation of encoded items is drained into the first items and a part
of the others. -/
theorem drain_of_prefix {encode : β → List α} {items : List β} {xs : List α}
    (hencode : ∀ {xs b rest}, P.next xs = .item b rest → xs = encode b ++ rest)
    (hnil : P.next [] = .more)
    (hitem : ∀ b ∈ items, ∀ ys, P.next (encode b ++ ys) = .item b ys)
    (h : xs <+: items.flatMap encode) :
    (P.drain xs).rejected = false ∧ ∃ others, items = (P.drain xs).items ++ others ∧
      (P.drain xs).rest <+: others.flatMap encode := by
  obtain ⟨more, hmore⟩ := h
  have hall := P.drain_encoded hitem []
  rw [List.append_nil, P.drain_more hnil, List.append_nil, ← hmore] at hall
  have haccepted : (P.drain xs).rejected = false := P.rejected_of_append (by rw [hall])
  have hitems : (P.drain xs).items ++ (P.drain ((P.drain xs).rest ++ more)).items = items := by
    rw [P.drain_append haccepted] at hall
    exact congrArg Drained.items hall
  refine ⟨haccepted, _, hitems.symm, more, ?_⟩
  have hrebuild := P.drain_rebuild hencode xs
  rw [← hitems, List.flatMap_append] at hmore
  nth_rewrite 1 [hrebuild] at hmore
  rw [List.append_assoc] at hmore
  exact List.append_cancel_left hmore

end StreamParser

end TinyKv.Foundation
