import Mathlib.Data.List.Basic
import Toolpath.Cbor.Reader

/-!
# Items end themselves

A reader is self-delimiting when it sees where the item ends: what it took is taken alike whatever
follows, and a text that ends earlier is found to be cut off. Readers one after the other are
self-delimiting when each of them is.
-/

namespace Toolpath.Cbor

variable {α β σ : Type}

/-- A beginning of the text, but not all of it. -/
def CutOff (p s : Text) : Prop := p <+: s ∧ p ≠ s

theorem not_cutOff_nil (p : Text) : ¬ CutOff p [] := fun h => h.2 (List.prefix_nil.mp h.1)

theorem CutOff.cons {p s : Text} {b : UInt8} (h : CutOff p (b :: s)) :
    p = [] ∨ ∃ p', p = b :: p' ∧ CutOff p' s := by
  cases p with
  | nil => exact .inl rfl
  | cons c p =>
    obtain ⟨rfl, hp⟩ := List.cons_prefix_cons.mp h.1
    exact .inr ⟨p, rfl, hp, fun heq => h.2 (congrArg _ heq)⟩

theorem CutOff.append {p s s' : Text} (h : CutOff p (s ++ s')) :
    CutOff p s ∨ ∃ p', p = s ++ p' ∧ CutOff p' s' := by
  induction s generalizing p with
  | nil => exact .inr ⟨p, rfl, h⟩
  | cons b s ih =>
    obtain rfl | ⟨p, rfl, hp⟩ := h.cons
    · exact .inl ⟨List.nil_prefix, by simp⟩
    · obtain hp | ⟨p', rfl, hp'⟩ := ih hp
      · exact .inl ⟨List.cons_prefix_cons.mpr ⟨rfl, hp.1⟩, fun heq => hp.2 (List.cons.inj heq).2⟩
      · exact .inr ⟨p', rfl, hp'⟩

abbrev Reader (α : Type) := Text → Except Fault (α × Text)

/-- The reader answers `a` when it has seen `s`, whatever follows, and not before. -/
structure Delimits (read : Reader α) (s : Text) (a : α) : Prop where
  whole : ∀ u, read (s ++ u) = .ok (a, u)
  part : ∀ p, CutOff p s → read p = .error .truncated

def SelfDelimiting (read : Reader α) : Prop :=
  ∀ t a rest, read t = .ok (a, rest) → ∃ s, t = s ++ rest ∧ Delimits read s a

variable {read read' : Reader α} {a : α} {next : α → Reader β}

theorem Delimits.congr {s : Text} (h : ∀ t, read t = read' t)
    (hread : Delimits read s a) : Delimits read' s a :=
  ⟨fun u => h _ ▸ hread.whole u, fun p hp => h _ ▸ hread.part p hp⟩

theorem SelfDelimiting.congr (h : ∀ t, read t = read' t)
    (hread : SelfDelimiting read) : SelfDelimiting read' := by
  intro t a rest ht
  obtain ⟨s, hs, hdelimits⟩ := hread t a rest ((h t).trans ht)
  exact ⟨s, hs, hdelimits.congr h⟩

theorem Delimits.takes {s t rest : Text} {b : UInt8}
    (h : Delimits read s a) (hempty : ∀ x, read [] ≠ .ok x) (ht : b :: t = s ++ rest) :
    ∃ s', s = b :: s' := by
  cases s with
  | nil => exact absurd (h.whole []) (hempty _)
  | cons c s => exact ⟨s, by rw [(List.cons.inj ht).1]⟩

theorem selfDelimiting_error (e : Fault) : SelfDelimiting (fun _ => .error e : Reader α) :=
  fun _ _ _ h => by cases h

theorem selfDelimiting_answer (a : α) : SelfDelimiting (fun t => .ok (a, t)) := by
  rintro t _ _ ⟨⟩
  exact ⟨[], rfl, fun u => rfl, fun p hp => absurd hp (not_cutOff_nil p)⟩

theorem selfDelimiting_ite {c : Prop} [Decidable c]
    (h : SelfDelimiting read) (h' : SelfDelimiting read') :
    SelfDelimiting fun t => if c then read t else read' t := by
  by_cases hc : c
  · exact h.congr fun t => (if_pos hc).symm
  · exact h'.congr fun t => (if_neg hc).symm

def andThen (read : Reader α) (next : α → Reader β) : Reader β := fun t =>
  match read t with
  | .error e => .error e
  | .ok (a, t) => next a t

theorem andThen_ok {t rest : Text}
    (h : read t = .ok (a, rest)) : andThen read next t = next a rest := by
  rw [andThen, h]

theorem andThen_error {t : Text} {e : Fault}
    (h : read t = .error e) : andThen read next t = .error e := by
  rw [andThen, h]

theorem Delimits.andThen {s s' : Text} {b : β}
    (h : Delimits read s a) (h' : Delimits (next a) s' b) :
    Delimits (andThen read next) (s ++ s') b := by
  constructor
  · intro u
    rw [List.append_assoc, andThen_ok (h.whole _), h'.whole]
  · intro p hp
    obtain hp | ⟨p', rfl, hp'⟩ := hp.append
    · exact andThen_error (h.part p hp)
    · rw [andThen_ok (h.whole _), h'.part p' hp']

theorem SelfDelimiting.andThen (h : SelfDelimiting read)
    (h' : ∀ a, SelfDelimiting (next a)) : SelfDelimiting (andThen read next) := by
  intro t b rest ht
  cases hread : read t with
  | error e =>
    rw [andThen_error hread] at ht
    cases ht
  | ok answer =>
    obtain ⟨a, t'⟩ := answer
    rw [andThen_ok hread] at ht
    obtain ⟨s, rfl, hs⟩ := h t a t' hread
    obtain ⟨s', rfl, hs'⟩ := h' a t' b rest ht
    exact ⟨s ++ s', (List.append_assoc ..).symm, hs.andThen hs'⟩

theorem SelfDelimiting.map (h : SelfDelimiting read) (f : α → β) :
    SelfDelimiting fun t => (read t).map fun (a, t) => (f a, t) := by
  apply (h.andThen fun a => selfDelimiting_answer (f a)).congr
  intro t
  unfold Cbor.andThen
  cases read t <;> rfl

theorem selfDelimiting_cons {next : UInt8 → Reader α}
    (hnil : read [] = .error .truncated) (hcons : ∀ b t, read (b :: t) = next b t)
    (h : ∀ b, SelfDelimiting (next b)) : SelfDelimiting read := by
  intro t a rest ht
  cases t with
  | nil =>
    rw [hnil] at ht
    cases ht
  | cons b t =>
    rw [hcons] at ht
    obtain ⟨s, rfl, hs⟩ := h b t a rest ht
    refine ⟨b :: s, rfl, fun u => (hcons b _).trans (hs.whole u), fun p hp => ?_⟩
    obtain rfl | ⟨p', rfl, hp'⟩ := hp.cons
    · exact hnil
    · rw [hcons, hs.part p' hp']

theorem selfDelimiting_peek (reader : UInt8 → Reader α)
    (hnil : read [] = .error .truncated) (hcons : ∀ b t, read (b :: t) = reader b (b :: t))
    (hempty : ∀ b x, reader b [] ≠ .ok x) (h : ∀ b, SelfDelimiting (reader b)) :
    SelfDelimiting read := by
  intro t a rest ht
  cases t with
  | nil =>
    rw [hnil] at ht
    cases ht
  | cons b t =>
    rw [hcons] at ht
    obtain ⟨s, hs, hdelimits⟩ := h b _ a rest ht
    obtain ⟨s, rfl⟩ := hdelimits.takes (hempty b) hs
    refine ⟨b :: s, hs, fun u => (hcons b _).trans (hdelimits.whole u), fun p hp => ?_⟩
    obtain rfl | ⟨p', rfl, -⟩ := hp.cons
    · exact hnil
    · rw [hcons, hdelimits.part _ hp]

def untilBreak (round : σ → Reader σ) : (fuel : Nat) → σ → Reader σ
  | 0, _, _ => .error .truncated
  | _ + 1, _, [] => .error .truncated
  | fuel + 1, s, b :: t =>
    if b = breakOctet then .ok (s, t) else andThen (round s) (untilBreak round fuel) (b :: t)

theorem untilBreak_nil (round : σ → Reader σ) (fuel : Nat) (s : σ) :
    untilBreak round fuel s [] = .error .truncated := by
  cases fuel <;> rfl

/-- Rounds that all take something need no more fuel than they take octets, and with less text
they end in the middle, whatever the fuel. -/
theorem untilBreak_delimits {round : σ → Reader σ} (hround : ∀ s, SelfDelimiting (round s))
    (hempty : ∀ s x, round s [] ≠ .ok x) {fuel : Nat} {s s' : σ} {t rest : Text}
    (h : untilBreak round fuel s t = .ok (s', rest)) :
    ∃ x, t = x ++ rest ∧
      (∀ fuel' u, x.length ≤ fuel' → untilBreak round fuel' s (x ++ u) = .ok (s', u)) ∧
      ∀ fuel' p, CutOff p x → untilBreak round fuel' s p = .error .truncated := by
  induction fuel generalizing s t with
  | zero => cases h
  | succ fuel ih =>
    cases t with
    | nil => cases h
    | cons b t =>
      rw [untilBreak] at h
      by_cases hb : b = breakOctet
      · rw [if_pos hb] at h
        obtain ⟨rfl, rfl⟩ := Prod.mk.inj (Except.ok.inj h)
        refine ⟨[b], rfl, fun fuel' u hfuel => ?_, fun fuel' p hp => ?_⟩
        · obtain ⟨fuel', rfl⟩ := Nat.exists_eq_add_of_le' hfuel
          exact if_pos hb
        · obtain rfl | ⟨p, -, hp⟩ := hp.cons
          · exact untilBreak_nil ..
          · exact absurd hp (not_cutOff_nil p)
      · rw [if_neg hb] at h
        cases hfirst : round s (b :: t) with
        | error e =>
          rw [andThen_error hfirst] at h
          cases h
        | ok answer =>
          obtain ⟨s₁, t₁⟩ := answer
          rw [andThen_ok hfirst] at h
          obtain ⟨x, hx, hdelimits⟩ := hround s _ _ _ hfirst
          obtain ⟨y, rfl, hwhole, hpart⟩ := ih h
          obtain ⟨x, rfl⟩ := hdelimits.takes (hempty s) hx
          refine ⟨b :: x ++ y, by rw [hx, List.append_assoc], fun fuel' u hfuel => ?_,
            fun fuel' p hp => ?_⟩
          · rw [List.length_append, List.length_cons] at hfuel
            obtain ⟨fuel', rfl⟩ := Nat.exists_eq_add_of_le' (show 1 ≤ fuel' by omega)
            rw [List.append_assoc, List.cons_append, untilBreak, if_neg hb]
            rw [← List.cons_append, andThen_ok (hdelimits.whole (y ++ u)),
              hwhole fuel' u (by omega)]
          · cases fuel' with
            | zero => rfl
            | succ fuel' =>
              obtain hp | ⟨p', rfl, hp'⟩ := hp.append
              · obtain rfl | ⟨p, rfl, -⟩ := hp.cons
                · rfl
                · rw [untilBreak, if_neg hb, andThen_error (hdelimits.part _ hp)]
              · rw [List.cons_append, untilBreak, if_neg hb, ← List.cons_append,
                  andThen_ok (hdelimits.whole p'), hpart fuel' p' hp']

theorem selfDelimiting_untilBreak {round : σ → Reader σ} (hround : ∀ s, SelfDelimiting (round s))
    (hempty : ∀ s x, round s [] ≠ .ok x) (s : σ) :
    SelfDelimiting fun t => untilBreak round (t.length + 1) s t := by
  intro t s' rest h
  obtain ⟨x, rfl, hwhole, hpart⟩ := untilBreak_delimits hround hempty h
  refine ⟨x, rfl, fun u => hwhole _ u ?_, fun p hp => hpart _ p hp⟩
  rw [List.length_append]
  omega

theorem selfDelimiting_readOctets (n : Nat) : SelfDelimiting (readOctets n) := by
  intro t front rest h
  unfold readOctets at h
  by_cases hshort : (t.take n).length < n
  · rw [if_pos hshort] at h
    cases h
  · rw [if_neg hshort] at h
    obtain ⟨rfl, rfl⟩ := Prod.mk.inj (Except.ok.inj h)
    have hlength : (t.take n).length = n := by
      rw [List.length_take] at hshort ⊢
      omega
    refine ⟨t.take n, (List.take_append_drop n t).symm, fun u => ?_, fun p hp => ?_⟩
    · unfold readOctets
      rw [List.take_append_of_le_length (Nat.le_of_eq hlength.symm), List.take_take, Nat.min_self,
        if_neg hshort, List.drop_append_of_le_length (Nat.le_of_eq hlength.symm),
        List.drop_of_length_le (Nat.le_of_eq hlength)]
      rfl
    · unfold readOctets
      have hp' : p.length < n := by
        have hle := hp.1.length_le
        have hne : p.length ≠ (t.take n).length := fun heq => hp.2 (hp.1.eq_of_length heq)
        omega
      rw [if_pos]
      rw [List.length_take]
      omega

theorem selfDelimiting_head : SelfDelimiting Head.read := by
  refine selfDelimiting_cons rfl (fun b t => rfl) fun b => ?_
  apply selfDelimiting_ite (selfDelimiting_answer _)
  apply selfDelimiting_ite
  · let argument (front : Text) : Reader Head := fun t =>
      if kindOf b = 7 && formOf b = 24 && ofBigEndian front < 32 then .error .syntactic
      else .ok (⟨kindOf b, formOf b, ofBigEndian front⟩, t)
    have hargument : ∀ front, SelfDelimiting (argument front) := fun front =>
      selfDelimiting_ite (selfDelimiting_error _) (selfDelimiting_answer _)
    apply ((selfDelimiting_readOctets (Nat.pow 2 (formOf b - 24))).andThen hargument).congr
    intro t
    unfold andThen
    cases readOctets (Nat.pow 2 (formOf b - 24)) t <;> rfl
  · apply selfDelimiting_ite _ (selfDelimiting_error _)
    exact selfDelimiting_ite (selfDelimiting_error _) (selfDelimiting_answer _)

theorem selfDelimiting_readString (n : Nat) : SelfDelimiting (readString n) :=
  selfDelimiting_ite (selfDelimiting_error _) (selfDelimiting_readOctets n)

def chunkRound (kind : Nat) (chunks : List Text) : Reader (List Text)
  | [] => .error .truncated
  | b :: t =>
    if kindOf b ≠ kind || formOf b = openForm then .error .syntactic
    else andThen Head.read (fun h => andThen (readString h.argument) fun chunk t =>
      .ok (chunk :: chunks, t)) (b :: t)

theorem selfDelimiting_chunkRound (kind : Nat) (chunks : List Text) :
    SelfDelimiting (chunkRound kind chunks) := by
  refine selfDelimiting_peek (fun b t =>
      if kindOf b ≠ kind || formOf b = openForm then .error .syntactic
      else andThen Head.read (fun h => andThen (readString h.argument) fun chunk t =>
        .ok (chunk :: chunks, t)) t) rfl (fun b t => rfl) (fun b x => ?_) fun b => ?_
  · split <;> simp [andThen, Head.read]
  · apply selfDelimiting_ite (selfDelimiting_error _)
    apply selfDelimiting_head.andThen
    intro h
    apply (selfDelimiting_readString h.argument).andThen
    intro chunk
    exact selfDelimiting_answer _

theorem readChunks_eq (kind fuel : Nat) (chunks : List Text) (t : Text) :
    readChunks kind fuel chunks t =
      (untilBreak (chunkRound kind) fuel chunks t).map fun (chunks, t) => (chunks.reverse, t) := by
  induction fuel generalizing chunks t with
  | zero => rfl
  | succ fuel ih =>
    cases t with
    | nil => rfl
    | cons b t =>
      by_cases hb : b = breakOctet
      · simp only [readChunks, untilBreak, if_pos hb]
        rfl
      · by_cases hkind : (kindOf b ≠ kind || formOf b = openForm) = true
        · simp only [readChunks, untilBreak, andThen, chunkRound, if_neg hb, if_pos hkind]
          rfl
        · simp only [readChunks, untilBreak, andThen, chunkRound, if_neg hb, if_neg hkind]
          cases Head.read (b :: t) with
          | error e => rfl
          | ok answer =>
            obtain ⟨h, t⟩ := answer
            cases hstring : readString h.argument t with
            | error e => simp only [hstring]; rfl
            | ok answer => simp only [hstring]; exact ih ..

theorem selfDelimiting_readChunks (kind : Nat) :
    SelfDelimiting fun t => readChunks kind (t.length + 1) [] t := by
  apply ((selfDelimiting_untilBreak (selfDelimiting_chunkRound kind)
    (fun _ _ => by simp [chunkRound]) []).map List.reverse).congr
  intro t
  exact (readChunks_eq ..).symm

/-! ## Items -/

theorem readMany_succ (read : ItemReader) (n : Nat) (items : List Item) (t : Text) :
    readMany read (n + 1) items t = andThen read (fun x => readMany read n (x :: items)) t := by
  rw [readMany, andThen]
  cases read t <;> rfl

theorem selfDelimiting_readMany {read : ItemReader} (h : SelfDelimiting read) (n : Nat)
    (items : List Item) : SelfDelimiting (readMany read n items) := by
  induction n generalizing items with
  | zero => exact selfDelimiting_answer _
  | succ n ih =>
    apply (h.andThen fun x => ih (x :: items)).congr
    intro t
    exact (readMany_succ ..).symm

/-- One more item, if there are not too many. The state is the items and their number. -/
def itemRound (read : ItemReader) (check : Nat → Option Fault) (s : Nat × List Item) :
    Reader (Nat × List Item) :=
  andThen read fun x t =>
    match check (s.1 + 1) with
    | some e => .error e
    | none => .ok ((s.1 + 1, x :: s.2), t)

theorem selfDelimiting_itemRound {read : ItemReader} (h : SelfDelimiting read)
    (check : Nat → Option Fault) (s : Nat × List Item) :
    SelfDelimiting (itemRound read check s) := by
  apply h.andThen
  intro x
  cases check (s.1 + 1) with
  | none => exact selfDelimiting_answer _
  | some e => exact selfDelimiting_error e

theorem readOpen_eq (read : ItemReader) (check : Nat → Option Fault) (fuel count : Nat)
    (items : List Item) (t : Text) :
    readOpen read check fuel count items t =
      (untilBreak (itemRound read check) fuel (count, items) t).map
        fun (s, t) => (s.2.reverse, t) := by
  induction fuel generalizing count items t with
  | zero => rfl
  | succ fuel ih =>
    cases t with
    | nil => rfl
    | cons b t =>
      by_cases hb : b = breakOctet
      · simp only [readOpen, untilBreak, if_pos hb]
        rfl
      · simp only [readOpen, untilBreak, andThen, itemRound, if_neg hb]
        cases read (b :: t) with
        | error e => rfl
        | ok answer =>
          obtain ⟨x, t⟩ := answer
          cases check (count + 1) with
          | some e => rfl
          | none => exact ih ..

theorem selfDelimiting_readOpen {read : ItemReader} (h : SelfDelimiting read)
    (hempty : ∀ x, read [] ≠ .ok x) (check : Nat → Option Fault) :
    SelfDelimiting fun t => readOpen read check (t.length + 1) 0 [] t := by
  have hround : ∀ s x, itemRound read check s [] ≠ .ok x := by
    intro s x
    cases hread : read [] with
    | error e => simp [itemRound, andThen_error hread]
    | ok answer => exact absurd hread (hempty answer)
  apply ((selfDelimiting_untilBreak (selfDelimiting_itemRound h check) hround (0, [])).map
    fun s => s.2.reverse).congr
  intro t
  exact (readOpen_eq ..).symm

theorem selfDelimiting_readArray {read : ItemReader} (h : SelfDelimiting read)
    (hempty : ∀ x, read [] ≠ .ok x) (head : Head) : SelfDelimiting (readArray read head) := by
  apply SelfDelimiting.map
  apply selfDelimiting_ite (selfDelimiting_readOpen h hempty _)
  apply selfDelimiting_ite (selfDelimiting_error _)
  apply selfDelimiting_ite (selfDelimiting_error _)
  exact selfDelimiting_readMany h _ _

theorem selfDelimiting_readMap {read : ItemReader} (h : SelfDelimiting read)
    (hempty : ∀ x, read [] ≠ .ok x) (head : Head) : SelfDelimiting (readMap read head) := by
  apply selfDelimiting_ite
  · let pairs (items : List Item) : Reader Item := fun t =>
      if items.length % 2 = 1 then .error .syntactic else .ok (.map items, t)
    have hpairs : ∀ items, SelfDelimiting (pairs items) := fun items =>
      selfDelimiting_ite (selfDelimiting_error _) (selfDelimiting_answer _)
    apply ((selfDelimiting_readOpen h hempty mapFault).andThen hpairs).congr
    intro t
    dsimp only [andThen]
    cases readOpen read mapFault (t.length + 1) 0 [] t <;> rfl
  · apply selfDelimiting_ite (selfDelimiting_error _)
    apply selfDelimiting_ite (selfDelimiting_error _)
    exact (selfDelimiting_readMany h _ _).map Item.map

theorem selfDelimiting_readContent {read : Nat → ItemReader} (h : ∀ l, SelfDelimiting (read l))
    (hempty : ∀ l x, read l [] ≠ .ok x) (levels : Nat) (head : Head) :
    SelfDelimiting (readContent read levels head) := by
  unfold readContent
  split
  · exact selfDelimiting_answer _
  · exact selfDelimiting_answer _
  · apply selfDelimiting_ite
    · exact (selfDelimiting_readChunks 2).map fun chunks => Item.bytes chunks.flatten
    · exact (selfDelimiting_readString _).map Item.bytes
  · apply selfDelimiting_ite
    · exact (selfDelimiting_readChunks 3).map Item.text
    · exact (selfDelimiting_readString _).map fun s => Item.text [s]
  · cases levels with
    | zero => exact selfDelimiting_error _
    | succ l => exact selfDelimiting_readArray (h l) (hempty l) head
  · cases levels with
    | zero => exact selfDelimiting_error _
    | succ l => exact selfDelimiting_readMap (h l) (hempty l) head
  · exact selfDelimiting_answer _

/-- The tags behind a first tag, the levels that they leave and the head that they stand on. -/
def readTagged (levels : Nat) : Reader (List Nat × Nat × Head) := fun t =>
  match readTags levels t with
  | .error e => .error e
  | .ok (ns, l, t) => (Head.read t).map fun (head, t) => ((ns, l, head), t)

def readUnderTag : (levels : Nat) → Head → Reader (List Nat × Nat × Head)
  | 0, _ => fun _ => .error .tooDeep
  | l + 1, tag => fun t => (readTagged l t).map fun (r, t) => ((tag.argument :: r.1, r.2), t)

def readTaggedAt (levels : Nat) (b : UInt8) : Reader (List Nat × Nat × Head) := fun t =>
  if kindOf b ≠ 6 then (Head.read t).map fun (head, t) => (([], levels, head), t)
  else andThen Head.read (readUnderTag levels) t

theorem readTagged_cons (levels : Nat) (b : UInt8) (t : Text) :
    readTagged levels (b :: t) = readTaggedAt levels b (b :: t) := by
  by_cases hb : kindOf b ≠ 6
  · simp only [readTagged, readTags, readTaggedAt, if_pos hb]
  · simp only [readTagged, readTags, readTaggedAt, if_neg hb, andThen]
    cases Head.read (b :: t) with
    | error e => rfl
    | ok answer =>
      cases levels with
      | zero => rfl
      | succ l =>
        simp only [readUnderTag, readTagged]
        cases readTags l answer.2 with
        | error e => rfl
        | ok tags =>
          simp only [Except.map]
          cases Head.read tags.2.2 <;> rfl

theorem selfDelimiting_readTagged (levels : Nat) : SelfDelimiting (readTagged levels) := by
  have hempty : ∀ l b x, readTaggedAt l b [] ≠ .ok x := by
    intro l b x
    unfold readTaggedAt
    split <;> simp [andThen, Head.read, Except.map]
  have hempty' : ∀ l, readTagged l [] = .error .truncated := fun l => by
    rw [readTagged, readTags]
  induction levels with
  | zero =>
    apply selfDelimiting_peek _ (hempty' 0) (readTagged_cons 0) (hempty 0)
    intro b
    apply selfDelimiting_ite (selfDelimiting_head.map fun head => ([], 0, head))
    exact selfDelimiting_head.andThen fun _ => selfDelimiting_error _
  | succ l ih =>
    apply selfDelimiting_peek _ (hempty' _) (readTagged_cons _) (hempty _)
    intro b
    apply selfDelimiting_ite (selfDelimiting_head.map fun head => ([], l + 1, head))
    exact selfDelimiting_head.andThen fun tag => ih.map fun r => (tag.argument :: r.1, r.2)

theorem readItem_nil (steps levels : Nat) (x : Item × Text) : readItem steps levels [] ≠ .ok x := by
  cases steps <;> simp [readItem, Head.read]

theorem selfDelimiting_readItem (steps levels : Nat) : SelfDelimiting (readItem steps levels) := by
  induction steps generalizing levels with
  | zero => exact selfDelimiting_error _
  | succ steps ih =>
    have hcontent : ∀ l head, SelfDelimiting (readContent (readItem steps) l head) :=
      selfDelimiting_readContent ih (readItem_nil steps)
    let rest (head : Head) : Reader Item := fun t =>
      if head.kind = 6 then
        andThen (readTagged levels) (fun tags t =>
          (readContent (readItem steps) tags.2.1 tags.2.2 t).map fun answer =>
            ((head.argument :: tags.1).foldr Item.tagged answer.1, answer.2)) t
      else readContent (readItem steps) levels head t
    have hrest : ∀ head, SelfDelimiting (rest head) := by
      intro head
      apply selfDelimiting_ite _ (hcontent levels head)
      apply (selfDelimiting_readTagged levels).andThen
      rintro ⟨ns, l, inner⟩
      exact (hcontent l inner).map fun x => (head.argument :: ns).foldr Item.tagged x
    apply (selfDelimiting_head.andThen hrest).congr
    intro t
    simp only [readItem, andThen, rest, readTagged]
    cases Head.read t with
    | error e => rfl
    | ok answer =>
      dsimp only
      split
      · cases readTags levels answer.2 with
        | error e => rfl
        | ok tags =>
          obtain ⟨ns, l, t⟩ := tags
          dsimp only
          cases Head.read t <;> rfl
      · rfl

theorem selfDelimiting_item : SelfDelimiting Item.read := selfDelimiting_readItem _ _

end Toolpath.Cbor
