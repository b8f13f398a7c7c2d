import Mathlib.Data.List.Nodup
import Toolpath.Proofs.Lockstep

/-!
# The addresses in a block

A block is legal when no two of its codes belong to one modal group and no two of its numbers
have the same address. Whether the next block is legal can be told from what waits and from the
flags. The address of a register is its name, since every register was made under it.
-/

namespace Toolpath

open Registers (normalName)

def Numeric.Bears (key : Text) (n : Numeric) : Prop := n.address = key ∧ n.format.address = key

namespace Registers

variable {rs rs' : Registers} {a : Text} {f : Numeric → Numeric}

def Named (rs : Registers) : Prop :=
  ∀ key i n, rs.index.lookup key = some i → rs.list[i]? = some n → n.Bears key

theorem Named.find? (h : rs.Named) {n : Numeric} (hn : rs.find? a = some n) :
    n.Bears (normalName a) := by
  obtain ⟨i, hi, hn⟩ := Option.bind_eq_some_iff.mp hn
  exact h _ i n hi hn

theorem Named.modify (h : rs.Named) (hf : ∀ key n, n.Bears key → (f n).Bears key) :
    (rs.modify a f).Named := by
  intro key i n hi hn
  rw [index_modify] at hi
  unfold Registers.modify at hn
  split at hn
  · rw [List.getElem?_modify] at hn
    obtain ⟨n₀, hn₀, rfl⟩ := Option.map_eq_some_iff.mp hn
    have hbears := h key i n₀ hi hn₀
    split
    · exact hf key n₀ hbears
    · exact hbears
  · exact h key i n hi hn

theorem named_clearFlags : rs.clearFlags.Named ↔ rs.Named := by
  constructor
  · intro h key i n hi hn
    refine h key i { n with changed := false } hi ?_
    simp [Registers.clearFlags, hn]
  · intro h key i n hi hn
    simp only [Registers.clearFlags, List.getElem?_map, Option.map_eq_some_iff] at hn
    obtain ⟨n₀, hn₀, rfl⟩ := hn
    exact h key i n₀ hi hn₀

theorem ensure_named (hrs : rs.Fresh) (hnamed : rs.Named) (h : rs.ensure a = .ok rs') :
    rs'.Named := by
  rw [ensure_eq] at h
  obtain ⟨-, ⟨-, rfl⟩ | ⟨-, rfl⟩⟩ := getOrAdd_ok h
  · exact hnamed
  · intro key i n hi hn
    rcases lookup_added hi with hi | ⟨rfl, rfl⟩
    · rw [push, List.getElem?_append_left (hrs.indexed.inRange hi)] at hn
      exact hnamed key i n hi hn
    · simp only [push, List.getElem?_concat_length, Option.some.injEq] at hn
      exact hn ▸ ⟨rfl, rfl⟩

theorem ensureAll_named {names : List Text} (hrs : rs.Fresh) (hnamed : rs.Named)
    (h : names.foldlM ensure rs = .ok rs') : rs'.Named := by
  refine (foldlM_kept (P := fun rs => rs.Fresh ∧ rs.Named) (fun rs a rs' hrs h => ?_) _
    ⟨hrs, hnamed⟩ h).2
  exact ⟨(ensure_grows hrs.1 h).fresh, ensure_named hrs.1 hrs.2 h⟩

theorem configure_named {format : NumberFormat} {modal : Bool} (hrs : rs.Fresh) (hnamed : rs.Named)
    (h : rs.configure a format modal = .ok rs') : rs'.Named := by
  obtain ⟨rs₁, h₁, h⟩ := bind_ok.mp h
  cases h
  exact (ensure_named hrs hnamed h₁).modify fun key n hn => ⟨hn.1, hn.1⟩

end Registers

variable {p : Profile}

namespace Machine

open Registers

theorem initialRegisters_named {rs : Registers} (h : initialRegisters p = .ok rs) : rs.Named := by
  obtain ⟨rs₀, h₀, h⟩ := bind_ok.mp h
  have hrs₀ : rs₀.Fresh ∧ rs₀.Named := by
    refine foldlM_kept (P := fun rs => rs.Fresh ∧ rs.Named) (fun rs e rs' hrs h => ?_) _ ?_ h₀
    · exact ⟨configure_fresh hrs.1 h, configure_named hrs.1 hrs.2 h⟩
    · exact ⟨⟨Indexed.empty, by simp⟩, fun key i n hi => by simp at hi⟩
  exact ensureAll_named hrs₀.1 hrs₀.2 h

theorem flag_named {rack : Rack} (h : rack.registers.Named) (b : Bool) (a : Text) :
    (rack.flag b (.register a)).registers.Named := by
  rw [Rack.flag_register]
  exact h.modify fun key n hn => hn

theorem unflag_named {rack : Rack} (h : rack.registers.Named) (names : List Text) :
    ((names.map WordRef.register).foldl (fun r ref => r.flag false ref) rack).registers.Named := by
  induction names generalizing rack with
  | nil => exact h
  | cons name names ih => exact ih (flag_named h false name)

theorem start_named {o : Occasion} {out : Outlet} {m : Machine}
    (h : start p o out = .ok m) : m.rack.registers.Named := by
  obtain ⟨rs, rs', hrs, hrs', rfl⟩ := start_ok h
  have hfresh := (initialRegisters_fresh hrs).1
  have hnamed := initialRegisters_named hrs
  have hensured := ensure_named (unflag_fresh { registers := rs } hfresh trackedNames).1
    (unflag_named hnamed trackedNames) hrs'
  exact flag_named hensured false "T"

theorem Opens.named {m : Machine} (h : Opens p m) : m.rack.registers.Named := by
  obtain ⟨occasion, outlet, m₀, strict, subject, log, skip, hstart, rfl⟩ := h
  exact start_named (m := m₀) hstart

theorem Does.named {d : Deed} {m m' : Machine} (h : Does d m m') (hm : m.rack.registers.Named) :
    m'.rack.registers.Named := by
  cases h with
  | hold _ a x n found =>
    have hmodify := modify_const (f := (Numeric.hold · x)) found
    rw [Rack.set_register, hmodify]
    exact hm.modify fun key n hn => hn
  | flag _ b a => exact flag_named hm b a
  | clearFlags => exact named_clearFlags.mpr hm
  | block =>
    rw [wroteBlock_rack, ← named_clearFlags, BlockWriter.clearFlags_spent]
    exact named_clearFlags.mpr hm
  | _ => exact hm

end Machine

def Queued.group? : Queued → Option Text
  | .code c => c.group
  | _ => none

def Queued.address? : Queued → Option Text
  | .once (.numeric n) => some n.address
  | .shared (.register a) => some (normalName a)
  | _ => none

def Origin.tracked? : Origin → Option Text
  | .tracked (.register a) => some (normalName a)
  | _ => none

def Token.tracked? (t : Token) : Option Text := t.origin.tracked?

def Token.address? (t : Token) : Option Text := (t.queued?.bind Queued.address?).or t.tracked?

namespace Block

def groups (b : Block) : List Text := b.queued.filterMap Queued.group?

def addresses (b : Block) : List Text := b.tokens.filterMap Token.address?

def Legal (b : Block) : Prop := b.groups.Nodup ∧ b.addresses.Nodup

instance (b : Block) : Decidable b.Legal := inferInstanceAs (Decidable (_ ∧ _))

end Block

namespace BlockWriter

variable {rack : Rack} {w : BlockWriter}

theorem origins_tokens {α : Type} {origin : α → Origin} {read : Rack → α → Text × Rack}
    (as : List α) :
    (tokens origin read rack as).1.map Token.origin = as.map origin := by
  induction as generalizing rack with
  | nil => rfl
  | cons a as ih => rw [tokens, List.map_cons, List.map_cons, ih]

def told (w : BlockWriter) (rack : Rack) : List Text := (w.due rack).filterMap Token.tracked?

theorem addresses_due (h : ∀ q ∈ w.pending, q.Proper) (hi : rack.registers.Indexed)
    (ht : rack.registers.Has "T") :
    (w.due rack).filterMap Token.address? = w.pending.filterMap Queued.address? ++ w.told rack := by
  have hqueued {rack : Rack} {qs : List Queued} {t : Token}
      (ht : t ∈ (tokens .queued queuedText rack qs).1.filter (!·.text.isEmpty)) :
      t.address? = t.queued?.bind Queued.address? ∧ t.tracked? = none := by
    obtain ⟨q, -, horigin⟩ := mem_tokens_origin (List.mem_filter.mp ht).1
    simp [Token.address?, Token.queued?, Token.tracked?, Origin.tracked?, horigin]
  have htracked {rack : Rack} {refs : List WordRef} {t : Token}
      (ht : t ∈ (tokens .tracked trackedText rack refs).1.filter (!·.text.isEmpty)) :
      t.address? = t.tracked? := by
    obtain ⟨ref, -, horigin⟩ := mem_tokens_origin (List.mem_filter.mp ht).1
    simp [Token.address?, Token.queued?, horigin]
  have hpending := queued_tokens h hi ht
  rw [told, due, List.filter_append, List.filterMap_append, List.filterMap_append,
    List.filterMap_congr fun t ht => (hqueued ht).1,
    List.filterMap_congr fun t ht => (hqueued ht).2,
    List.filterMap_congr fun t ht => htracked ht, ← List.filterMap_filterMap, hpending]
  simp

theorem told_sublist {names : List Text} (h : w.tracked = names.map .register) :
    (w.told rack).Sublist (names.map normalName) := by
  have hqueued : (tokens .queued queuedText rack w.pending).1.filterMap Token.tracked? = [] := by
    refine List.filterMap_eq_nil_iff.mpr fun t ht => ?_
    obtain ⟨q, -, horigin⟩ := mem_tokens_origin ht
    rw [Token.tracked?, horigin]
    rfl
  have htracked (rack : Rack) :
      (tokens .tracked trackedText rack w.tracked).1.filterMap Token.tracked? =
        names.map normalName := by
    calc (tokens .tracked trackedText rack w.tracked).1.filterMap Token.tracked?
        = ((tokens .tracked trackedText rack w.tracked).1.map Token.origin).filterMap
          Origin.tracked? := by
          rw [List.filterMap_map]
          rfl
      _ = names.map normalName := by
          rw [origins_tokens, h, List.map_map, List.filterMap_map, ← List.filterMap_eq_map]
          rfl
  have hsub := (List.filter_sublist (p := (!·.text.isEmpty))
    (l := (tokens .queued queuedText rack w.pending).1 ++
      (tokens .tracked trackedText
        (tokens .queued queuedText rack w.pending).2 w.tracked).1)).filterMap
    Token.tracked?
  rwa [List.filterMap_append, hqueued, htracked, List.nil_append] at hsub

theorem mem_told {r : Text} (hproper : ∀ q ∈ w.pending, q.Proper) (hi : rack.registers.Indexed)
    (href : .register r ∈ w.tracked) (hr : normalName "T" ≠ normalName r) :
    normalName r ∈ w.told rack ↔
      ((rack.registers.find? r).map Numeric.changed).getD false = true := by
  have hnone : ∀ q ∈ w.pending, (Origin.queued q).isOf r = false :=
    fun q hq => (hproper q hq).isOf hr
  constructor
  · intro hmem
    obtain ⟨t, ht, htold⟩ := List.mem_filterMap.mp hmem
    have hof : t.isOf r = true := by
      unfold Token.tracked? Origin.tracked? at htold
      split at htold
      case h_1 a horigin => simpa [Token.isOf, Origin.isOf, horigin] using htold
      case h_2 => cases htold
    by_contra hclear
    have hunflagged := due_unflagged hi hnone fun n hn => by simpa [hn] using hclear
    simp [hunflagged t ht] at hof
  · intro hflagged
    cases hn : rack.registers.find? r with
    | none => simp [hn] at hflagged
    | some n =>
      have hchanged : n.changed = true := by simpa [hn] using hflagged
      obtain ⟨t, ht, hof, -⟩ := due_flagged hi (n.format.format_ne_nil n.value) hn hchanged href
      refine List.mem_filterMap.mpr ⟨t, ht, ?_⟩
      rcases List.mem_append.mp (mem_due.mp ht).1 with hmem | hmem
      · obtain ⟨q, hq, horigin⟩ := mem_tokens_origin hmem
        simp [Token.isOf, horigin, hnone q hq] at hof
      · obtain ⟨ref, -, horigin⟩ := mem_tokens_origin hmem
        cases ref with
        | register a =>
          simpa [Token.isOf, Origin.isOf, Token.tracked?, Origin.tracked?, horigin] using hof
        | loose i => simp [Token.isOf, Origin.isOf, horigin] at hof

end BlockWriter

namespace Machine

variable {S : Machine → Deed → Prop} {m m' m'' : Machine} {d : Deed} {P Q : Prop}

/-- The usual registers are there and tracked, each is named, and what waits is proper. -/
structure Fit (m : Machine) : Prop where
  sound : Sound m
  has : ∀ r ∈ trackedNames, m.rack.registers.Has r
  tracked : m.writer.tracked = trackedNames.map .register
  named : m.rack.registers.Named

theorem Fit.congr (hm : Fit m) (hwriter : m'.writer = m.writer) (hrack : m'.rack = m.rack) :
    Fit m' := by
  refine ⟨hm.sound.congr hrack (by rw [hwriter]) ?_, hrack ▸ hm.has, hwriter ▸ hm.tracked,
    hrack ▸ hm.named⟩
  exact hwriter ▸ hm.sound.proper

theorem Does.fit (h : Does d m m') (hd : Orderly d) (hm : Fit m) : Fit m' :=
  ⟨h.sound hd hm.sound, fun r hr => h.has hm.sound.indexed (hm.has r hr),
    h.alike.tracked.trans hm.tracked, h.named hm.named⟩

theorem Course.fit (hS : ∀ m d, S m d → Orderly d) (h : Course S m m') (hm : Fit m) : Fit m' :=
  h.invariant (fun d a _ hd hab => hab.fit (hS a d hd)) hm

theorem Step.fit {c : Command} (h : Step c m m') (hm : Fit m) :
    Fit m' := h.orderly.fit (fun _ _ h => h) hm

theorem Opens.fit (h : Opens p m) : Fit m :=
  ⟨h.fresh.sound, fun r hr => h.fresh.has r (List.mem_cons_of_mem _ hr), h.fresh.tracked, h.named⟩

theorem Fit.tracks (hm : Fit m) {r : Text} (hr : r ∈ trackedNames) :
    .register r ∈ m.writer.tracked :=
  hm.tracked ▸ List.mem_map_of_mem hr

def groups (m : Machine) : List Text := m.writer.pending.filterMap Queued.group?

def addresses (m : Machine) : List Text := m.writer.pending.filterMap Queued.address?

theorem groups_queued {qs : List Queued} (h : m'.writer.pending = m.writer.pending ++ qs) :
    m'.groups = m.groups ++ qs.filterMap Queued.group? := by
  rw [groups, h, List.filterMap_append, groups]

theorem addresses_queued {qs : List Queued} (h : m'.writer.pending = m.writer.pending ++ qs) :
    m'.addresses = m.addresses ++ qs.filterMap Queued.address? := by
  rw [addresses, h, List.filterMap_append, addresses]

/-- What waits can go into one block, and no register whose address waits is flagged. -/
def Clear (m : Machine) : Prop :=
  m.groups.Nodup ∧ m.addresses.Nodup ∧ ∀ r ∈ m.addresses, r ∈ trackedNames → m.flagged r = false

theorem due_legal (hm : Fit m) (number : Option Text) :
    (⟨number, m.writer.due m.rack⟩ : Block).Legal ↔ m.Clear := by
  have hnormal : ∀ r ∈ trackedNames, normalName r = r ∧ normalName "T" ≠ normalName r := by decide
  have hqueued : (⟨number, m.writer.due m.rack⟩ : Block).queued = m.writer.pending :=
    BlockWriter.queued_due hm.sound.proper hm.sound.indexed hm.sound.tool
  have htold {r : Text} (hr : r ∈ trackedNames) : r ∈ m.writer.told m.rack ↔
      m.flagged r = true := by
    have hmem := BlockWriter.mem_told hm.sound.proper hm.sound.indexed (hm.tracks hr)
      (hnormal r hr).2
    rwa [(hnormal r hr).1] at hmem
  have hnames : trackedNames.map normalName = trackedNames := by decide
  have hsub : (m.writer.told m.rack).Sublist trackedNames :=
    hnames ▸ BlockWriter.told_sublist hm.tracked
  have hnodup : (m.writer.told m.rack).Nodup := hsub.nodup (by decide)
  rw [Block.Legal, Block.groups, hqueued, Block.addresses,
    BlockWriter.addresses_due hm.sound.proper hm.sound.indexed hm.sound.tool, List.nodup_append]
  refine and_congr_right fun _ => and_congr_right fun _ => ?_
  constructor
  · rintro ⟨-, hapart⟩ r hr htracked
    by_contra hflagged
    exact hapart r hr r ((htold htracked).mpr (by simpa using hflagged)) rfl
  · intro hclear
    refine ⟨hnodup, ?_⟩
    rintro r hr _ hmem rfl
    have htracked := hsub.subset hmem
    exact absurd (hclear r hr htracked) (by simp [(htold htracked).mp hmem])

def LegalIff (P : Prop) (m m' : Machine) : Prop :=
  ∃ bs, m'.writer.written = bs ++ m.writer.written ∧ ((∀ b ∈ bs, b.Legal) ↔ P)

theorem LegalIff.trans (h : LegalIff P m m') (h' : LegalIff Q m' m'') : LegalIff (P ∧ Q) m m'' := by
  obtain ⟨bs, hw, hP⟩ := h
  obtain ⟨bs', hw', hQ⟩ := h'
  refine ⟨bs' ++ bs, by rw [hw', hw, List.append_assoc], ?_⟩
  rw [← hP, ← hQ]
  constructor
  · intro h
    exact ⟨fun b hb => h b (List.mem_append_right _ hb), fun b hb =>
      h b (List.mem_append_left _ hb)⟩
  · rintro ⟨h, h'⟩ b hb
    rcases List.mem_append.mp hb with hb | hb
    · exact h' b hb
    · exact h b hb

theorem LegalIff.congr (h : LegalIff P m m') (hPQ : P ↔ Q) : LegalIff Q m m' := by
  obtain ⟨bs, hw, hP⟩ := h
  exact ⟨bs, hw, hP.trans hPQ⟩

theorem legalIff_block (hm : Fit m) : LegalIff m.Clear m m.wroteBlock := by
  rcases wroteBlock_written m with ⟨hnil, hw⟩ | ⟨-, number, hw⟩
  · have hpending : m.writer.pending = [] := by
      rw [← BlockWriter.queued_due hm.sound.proper hm.sound.indexed hm.sound.tool, hnil]
      rfl
    refine ⟨[], hw, ?_⟩
    simp [Clear, groups, addresses, hpending]
  · refine ⟨[_], hw, ?_⟩
    simpa using due_legal hm number

end Machine
end Toolpath
