import MssClock.Board.Operation
import MssClock.Proofs.Board.Words
import MssClock.Proofs.Register.Layout
import Mathlib.Data.List.Induction

/-!
# Accesses through handles

An access sees and changes one word, the one that its handle stands for, so
accesses through two handles do not disturb each other.  A write or a
modification works its assignments out first and stores once: a number that
does not fit stops it before anything is stored, however many fitted before.
The word that it stores has the last number assigned to each field; the fields
that are left out and the padding are those of the word it started from.
-/

namespace MssClock

/-- The address at which a word of a block starts. -/
def Block.addressOf (block : Block) (index : Fin Block.wordCount) : Nat :=
  block.address + 4 * index.val

/-- The register as one number that fills the word. -/
def Layout.plain : Layout where
  name := "bits"
  members := [.number "bits" 32]

namespace Handle

/-- The layout of the register, whose only field may be the whole word. -/
def layout (handle : Handle) : Layout :=
  handle.layout?.getD .plain

theorem addressOf_index (handle : Handle) :
    handle.block.addressOf handle.index =
      handle.block.address + handle.offset := by
  cases handle <;> rfl

theorem packed_layout (handle : Handle) : handle.layout.Packed := by
  cases handle <;> decide

end Handle

/-! ## Assignments -/

namespace Assignment

/-- The number fits the field. -/
def InRange (a : Assignment) : Prop :=
  a.n.toNat < 2 ^ a.field.width

instance (a : Assignment) : Decidable a.InRange :=
  inferInstanceAs (Decidable (_ < _))

/-- The word after all assignments, each of which stores. -/
def storeAll (word : Word) (assignments : List Assignment) : Word :=
  assignments.foldl (fun current a => a.field.store a.n current) word

/-- The number assigned last to the field. -/
def last? (field : Field) (assignments : List Assignment) : Option Word :=
  (assignments.filter fun a => a.field = field).getLast?.map Assignment.n

end Assignment

section Assign

variable {layout : Layout} {assignments : List Assignment} {span : Field}

theorem assignAll_of_inRange (hfits : ∀ a ∈ assignments, a.field.Fits)
    (hrange : ∀ a ∈ assignments, a.InRange) (word : Word) :
    assignAll word assignments =
      .ok (Assignment.storeAll word assignments) := by
  induction assignments generalizing word with
  | nil => rfl
  | cons a rest ih =>
      rw [List.forall_mem_cons] at hfits hrange
      rw [assignAll, List.foldlM_cons, hfits.1.put_of_lt hrange.1]
      exact ih hfits.2 hrange.2 _

theorem assignAll_of_not_inRange (hfits : ∀ a ∈ assignments, a.field.Fits)
    {a : Assignment} (ha : a ∈ assignments) (hrange : ¬ a.InRange)
    (word : Word) :
    ∃ refused ∈ assignments, ¬ refused.InRange ∧
      assignAll word assignments =
        .error (.outOfBounds refused.field.largest) := by
  induction assignments generalizing word with
  | nil => cases ha
  | cons first rest ih =>
      rw [List.forall_mem_cons] at hfits
      by_cases hfirst : first.InRange
      · have hrest : a ∈ rest := by
          obtain rfl | hrest := List.mem_cons.mp ha
          · exact absurd hfirst hrange
          · exact hrest
        obtain ⟨refused, hmem, hrefused, herror⟩ :=
          ih hfits.2 hrest (first.field.store first.n word)
        refine ⟨refused, List.mem_cons_of_mem _ hmem, hrefused, ?_⟩
        rw [assignAll, List.foldlM_cons, hfits.1.put_of_lt hfirst]
        exact herror
      · refine ⟨first, List.mem_cons_self, hfirst, ?_⟩
        rw [assignAll, List.foldlM_cons,
          hfits.1.put_of_le (Nat.not_lt.mp hfirst)]
        rfl

theorem get_storeAll (hpacked : layout.Packed)
    (hfields : ∀ a ∈ assignments, a.field ∈ layout.fields)
    (hrange : ∀ a ∈ assignments, a.InRange)
    (hspan : span ∈ layout.fields ++ layout.gaps) (word : Word) :
    span.get (Assignment.storeAll word assignments) =
      (Assignment.last? span assignments).getD (span.get word) := by
  -- The last assignment decides, unless it is to other bits.
  induction assignments using List.reverseRecOn with
  | nil => rfl
  | append_singleton before a ih =>
      have hbefore := ih
        (fun b hb => hfields b (List.mem_append_left _ hb))
        (fun b hb => hrange b (List.mem_append_left _ hb))
      have hlast : Assignment.storeAll word (before ++ [a]) =
          a.field.store a.n (Assignment.storeAll word before) :=
        List.foldl_concat ..
      rw [hlast, hpacked.get_store (hfields a (by simp)) hspan
        (hrange a (by simp))]
      unfold Assignment.last?
      rw [List.filter_append]
      by_cases heq : a.field = span
      · simp [heq]
      · rw [if_neg heq, hbefore, Assignment.last?]
        simp [heq]

theorem last?_gap (hpacked : layout.Packed)
    (hfields : ∀ a ∈ assignments, a.field ∈ layout.fields)
    {gap : Field} (hgap : gap ∈ layout.gaps) :
    Assignment.last? gap assignments = none := by
  have hnone : assignments.filter (fun a => a.field = gap) = [] := by
    refine List.filter_eq_nil_iff.mpr fun a ha heq => ?_
    exact hpacked.ne_of_mem_gaps (hfields a ha) hgap (of_decide_eq_true heq)
  rw [Assignment.last?, hnone]
  rfl

theorem get_storeAll_gap (hpacked : layout.Packed)
    (hfields : ∀ a ∈ assignments, a.field ∈ layout.fields)
    (hrange : ∀ a ∈ assignments, a.InRange)
    {gap : Field} (hgap : gap ∈ layout.gaps) (word : Word) :
    gap.get (Assignment.storeAll word assignments) = gap.get word := by
  rw [get_storeAll hpacked hfields hrange (List.mem_append_right _ hgap),
    last?_gap hpacked hfields hgap, Option.getD_none]

end Assign

/-! ## Accesses -/

namespace Operation

/-- The accesses through a handle that its register allows. -/
inductive Accesses (handle : Handle) : Operation → Prop
  | read (allowed) : Accesses handle (.read handle allowed)
  | store (allowed) (bits : Word) :
      Accesses handle (.store handle allowed bits)
  | write (allowed) (assignments : List Assignment) :
      Accesses handle (.write handle allowed assignments)
  | modify (allowed) (assignments : List Assignment) :
      Accesses handle (.modify handle allowed assignments)

/-- The access makes these assignments, starting from `word`: a write from the
empty word, a modification from the present one. -/
inductive AssignsFrom (handle : Handle) (present : Word)
    (assignments : List Assignment) : Word → Operation → Prop
  | write (allowed) :
      AssignsFrom handle present assignments 0
        (.write handle allowed assignments)
  | modify (allowed) :
      AssignsFrom handle present assignments present
        (.modify handle allowed assignments)

end Operation

namespace Board

/-- Stores the bits if there are any. -/
def storeIfAny (board : Board) (handle : Handle) (bits? : Option Word) :
    Board :=
  bits?.elim board (board.store handle)

section Local

variable (board : Board) {handle other : Handle} (bits? : Option Word)

@[simp]
theorem initialized_storeIfAny :
    (board.storeIfAny handle bits?).initialized = board.initialized := by
  cases bits? with
  | none => rfl
  | some bits => exact board.initialized_store handle bits

theorem word_storeIfAny_of_ne {block : Block} {index : Fin Block.wordCount}
    (hplace : (block, index) ≠ handle.place) :
    (board.storeIfAny handle bits?).word block index =
      board.word block index := by
  cases bits? with
  | none => rfl
  | some bits => exact board.word_store_of_ne bits hplace

theorem storeIfAny_comm (hne : other ≠ handle) (otherBits? : Option Word) :
    (board.storeIfAny handle bits?).storeIfAny other otherBits? =
      (board.storeIfAny other otherBits?).storeIfAny handle bits? := by
  cases bits? with
  | none => rfl
  | some bits =>
      cases otherBits? with
      | none => rfl
      | some otherBits => exact board.store_comm bits hne otherBits

variable {word bits : Word} {fault : Fault} {assignments : List Assignment}

theorem assigned_of_ok (hassign : assignAll word assignments = .ok bits) :
    board.assigned handle (board.storeAssigned handle word assignments) =
      ⟨.contents handle bits, [], board.store handle bits⟩ := by
  rw [storeAssigned, hassign]
  rfl

theorem assigned_of_error
    (hassign : assignAll word assignments = .error fault) :
    board.assigned handle (board.storeAssigned handle word assignments) =
      ⟨.fault fault, [], board⟩ := by
  rw [storeAssigned, hassign]
  rfl

/-- What assignments to a word do is the same on every board. -/
theorem exists_assigned_eq (handle : Handle) (word : Word)
    (assignments : List Assignment) :
    ∃ reply bits?, ∀ board : Board,
      board.assigned handle (board.storeAssigned handle word assignments) =
        ⟨reply, [], board.storeIfAny handle bits?⟩ := by
  cases hassign : assignAll word assignments with
  | ok bits =>
      exact ⟨.contents handle bits, some bits,
        fun board => board.assigned_of_ok hassign⟩
  | error fault =>
      exact ⟨.fault fault, none, fun board => board.assigned_of_error hassign⟩

/-- An access sees no more than its word: wherever that is the same, it
replies the same and stores the same. -/
theorem exists_step_eq {access : Operation} (haccess : access.Accesses handle)
    (found : Word) :
    ∃ reply bits?, ∀ board : Board, board.read handle = found →
      board.step access = ⟨reply, [], board.storeIfAny handle bits?⟩ := by
  cases haccess with
  | read allowed =>
      exact ⟨.contents handle found, none, by rintro board rfl; rfl⟩
  | store allowed bits => exact ⟨.done, some bits, fun board _ => rfl⟩
  | write allowed assignments =>
      obtain ⟨reply, bits?, hassigned⟩ :=
        exists_assigned_eq handle 0 assignments
      exact ⟨reply, bits?, fun board _ => hassigned board⟩
  | modify allowed assignments =>
      obtain ⟨reply, bits?, hassigned⟩ :=
        exists_assigned_eq handle found assignments
      refine ⟨reply, bits?, ?_⟩
      rintro board rfl
      exact hassigned board

section Step

variable {access : Operation} {start : Word}

theorem step_assignsFrom
    (haccess : access.AssignsFrom handle (board.read handle) assignments
      start) :
    board.step access =
      board.assigned handle (board.storeAssigned handle start assignments) := by
  cases haccess with
  | write allowed => rfl
  | modify allowed => rfl

theorem step_of_inRange
    (haccess : access.AssignsFrom handle (board.read handle) assignments
      start)
    (hfits : ∀ a ∈ assignments, a.field.Fits)
    (hrange : ∀ a ∈ assignments, a.InRange) :
    board.step access =
      ⟨.contents handle (Assignment.storeAll start assignments), [],
        board.store handle (Assignment.storeAll start assignments)⟩ := by
  rw [board.step_assignsFrom haccess]
  exact board.assigned_of_ok (assignAll_of_inRange hfits hrange start)

theorem exists_step_of_not_inRange
    (haccess : access.AssignsFrom handle (board.read handle) assignments
      start)
    (hfits : ∀ a ∈ assignments, a.field.Fits)
    {a : Assignment} (ha : a ∈ assignments) (hrange : ¬ a.InRange) :
    ∃ refused ∈ assignments, ¬ refused.InRange ∧
      board.step access =
        ⟨.fault (.outOfBounds refused.field.largest), [], board⟩ := by
  obtain ⟨refused, hmem, hrefused, herror⟩ :=
    assignAll_of_not_inRange hfits ha hrange start
  refine ⟨refused, hmem, hrefused, ?_⟩
  rw [board.step_assignsFrom haccess]
  exact board.assigned_of_error herror

theorem step_local (haccess : access.Accesses handle) :
    (board.step access).records = [] ∧
      (board.step access).board.initialized = board.initialized ∧
      ∀ block index, (block, index) ≠ handle.place →
        (board.step access).board.word block index =
          board.word block index := by
  obtain ⟨reply, bits?, hstep⟩ := exists_step_eq haccess (board.read handle)
  rw [hstep board rfl]
  exact ⟨rfl, board.initialized_storeIfAny bits?, fun block index =>
    board.word_storeIfAny_of_ne bits?⟩

theorem step_comm {otherAccess : Operation} (hne : other ≠ handle)
    (haccess : access.Accesses handle)
    (hother : otherAccess.Accesses other) :
    ((board.step access).board.step otherAccess).board =
        ((board.step otherAccess).board.step access).board ∧
      ((board.step access).board.step otherAccess).reply =
        (board.step otherAccess).reply ∧
      ((board.step otherAccess).board.step access).reply =
        (board.step access).reply := by
  have hplace : other.place ≠ handle.place := Handle.place_injective.ne hne
  obtain ⟨reply, bits?, hstep⟩ := exists_step_eq haccess (board.read handle)
  obtain ⟨otherReply, otherBits?, hotherStep⟩ :=
    exists_step_eq hother (board.read other)
  -- Neither access changes the word that the other one finds.
  have hfound := board.word_storeIfAny_of_ne bits? hplace
  have hotherFound := board.word_storeIfAny_of_ne otherBits? hplace.symm
  simp only [hstep board rfl, hotherStep board rfl, hotherStep _ hfound,
    hstep _ hotherFound]
  exact ⟨board.storeIfAny_comm bits? hne otherBits?, trivial, trivial⟩

end Step

end Local

/-- An access through a handle reads and changes the word at the handle's own
address and nothing else.  Assignments are all carried out or none is, and
accesses through different handles can change places. -/
theorem access_ownWord (board : Board) (handle : Handle) :
    let block := handle.block
    let index := handle.index
    let layout := handle.layout
    block.addressOf index = block.address + handle.offset ∧
    (∀ allowed, board.step (.read handle allowed) =
      ⟨.contents handle (board.word block index), [], board⟩) ∧
    (∀ allowed bits,
      let effect := board.step (.store handle allowed bits)
      effect.reply = .done ∧ effect.board.word block index = bits) ∧
    (∀ (assignments : List Assignment) (start : Word) (access : Operation),
      (∀ a ∈ assignments, a.field ∈ layout.fields) →
      access.AssignsFrom handle (board.word block index) assignments start →
      let effect := board.step access
      let bits := Assignment.storeAll start assignments
      ((∀ a ∈ assignments, a.InRange) →
        effect.reply = .contents handle bits ∧
          effect.board.word block index = bits ∧
          (∀ field ∈ layout.fields, field.get bits =
            (Assignment.last? field assignments).getD (field.get start)) ∧
          ∀ gap ∈ layout.gaps, gap.get bits = gap.get start) ∧
      ∀ a ∈ assignments, ¬ a.InRange →
        ∃ refused ∈ assignments, ¬ refused.InRange ∧
          effect = ⟨.fault (.outOfBounds refused.field.largest), [], board⟩) ∧
    (∀ access : Operation, access.Accesses handle →
      let effect := board.step access
      effect.records = [] ∧ effect.board.initialized = board.initialized ∧
        ∀ other otherIndex, (other, otherIndex) ≠ (block, index) →
          effect.board.word other otherIndex = board.word other otherIndex) ∧
    ∀ other ≠ handle, ∀ access otherAccess : Operation,
      access.Accesses handle → otherAccess.Accesses other →
        let first := board.step access
        let second := board.step otherAccess
        (first.board.step otherAccess).board =
            (second.board.step access).board ∧
          (first.board.step otherAccess).reply = second.reply ∧
          (second.board.step access).reply = first.reply := by
  intro block index layout
  have hpacked : layout.Packed := handle.packed_layout
  refine ⟨handle.addressOf_index, fun allowed => rfl, ?_, ?_, ?_, ?_⟩
  · intro allowed bits effect
    exact ⟨rfl, board.read_store_self handle bits⟩
  · intro assignments start access hfields haccess effect bits
    have hfits : ∀ a ∈ assignments, a.field.Fits :=
      fun a ha => hpacked.fits_field (hfields a ha)
    constructor
    · intro hrange
      have heffect : effect = ⟨.contents handle bits, [], _⟩ :=
        board.step_of_inRange haccess hfits hrange
      refine ⟨by rw [heffect], ?_, fun field hfield => ?_, fun gap hgap => ?_⟩
      · rw [heffect]
        exact board.read_store_self handle bits
      · exact get_storeAll hpacked hfields hrange
          (List.mem_append_left _ hfield) start
      · exact get_storeAll_gap hpacked hfields hrange hgap start
    · intro a ha hrange
      exact board.exists_step_of_not_inRange haccess hfits ha hrange
  · intro access haccess
    exact board.step_local haccess
  · intro other hne access otherAccess haccess hother
    exact board.step_comm hne haccess hother

theorem access_ownWord_pllStatusHigh :
    let board := boot.store .pllStatusHigh 0xFFFFFFFF
    let ssmf := PllStatusHigh.ssmf
    let assignments : List Assignment :=
      [⟨ssmf, 9⟩, ⟨PllStatusHigh.bypass, 0⟩, ⟨ssmf, 3⟩]
    let modify : Operation := .modify .pllStatusHigh rfl assignments
    let refresh : Operation := .store .wdogRefresh rfl 7
    let bits := Assignment.storeAll 0xFFFFFFFF assignments
    bits = 0xFFFFE3FE ∧
      (board.step modify).reply = .contents .pllStatusHigh bits ∧
      ssmf.get bits = 3 ∧
      (∀ gap ∈ PllStatusHigh.layout.gaps,
        gap.get bits = gap.get 0xFFFFFFFF) ∧
      board.step (.write .pllStatusHigh rfl
          [⟨ssmf, 31⟩, ⟨PllStatusHigh.ssmd, 4⟩]) =
        ⟨.fault (.outOfBounds 3), [], board⟩ ∧
      ((board.step modify).board.step refresh).board =
        ((board.step refresh).board.step modify).board := by
  intro board ssmf assignments modify refresh bits
  have hread : board.read .pllStatusHigh = 0xFFFFFFFF :=
    boot.read_store_self .pllStatusHigh _
  obtain ⟨-, -, -, hassigns, -, hcomm⟩ := access_ownWord board .pllStatusHigh
  have hmodify : modify.AssignsFrom .pllStatusHigh
      (board.read .pllStatusHigh) assignments 0xFFFFFFFF := by
    rw [hread]
    exact .modify rfl
  obtain ⟨hreply, -, hfields, hgaps⟩ :=
    (hassigns assignments _ modify (by decide) hmodify).1 (by decide)
  obtain ⟨refused, hmem, hrefused, heffect⟩ :=
    (hassigns [⟨ssmf, 31⟩, ⟨PllStatusHigh.ssmd, 4⟩] 0 _ (by decide)
      (.write rfl)).2 ⟨PllStatusHigh.ssmd, 4⟩ (by simp) (by decide)
  refine ⟨by decide, hreply, hfields ssmf (by decide), hgaps, ?_, ?_⟩
  · simp only [List.mem_cons, List.not_mem_nil, or_false] at hmem
    obtain rfl | rfl := hmem
    · exact absurd (by decide) hrefused
    · exact heffect
  · exact (hcomm .wdogRefresh (by decide) modify refresh (.modify rfl _)
      (.store rfl _)).1

end Board

end MssClock
