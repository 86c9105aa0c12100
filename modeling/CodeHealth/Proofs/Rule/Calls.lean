import CodeHealth.Proofs.Entries
import CodeHealth.Proofs.Rule.Scan
import CodeHealth.Proofs.Text.Places
import CodeHealth.Proofs.Text.Runs
import CodeHealth.Proofs.Value.Numbers
import CodeHealth.Rule.Couplers

/-!
# Calls and their receivers

A call is a receiver, a point, a name and an opening parenthesis. The receiver is a whole word: what
stands before it is no part of a word, and behind it stands the point. Calls can be chained, nested
and put side by side, but no call begins inside of another one, because neither the rest of a
receiver, nor the name, nor the parenthesis can be a receiver (`apart_callOn`). So the scan hears
every call, and the tally of its findings counts the places at which each receiver is called
(`Rule.scan_featureEnvy`).
-/

namespace CodeHealth

namespace Text

/-- Whether a receiver is called at an offset of a text. -/
def CallsAt (s receiver : Text) (offset : Nat) : Prop :=
  startsWord (s.take offset).getLast? = true ∧ IsRun isWord receiver ∧
    ∃ name rest, IsRun isWord name ∧ s.drop offset = receiver ++ '.' :: (name ++ '(' :: rest)

variable {s receiver : Text} {before : Option Char} {size offset : Nat}

theorem isWord_point : isWord '.' = false := by
  decide

theorem isWord_parenthesis : isWord '(' = false := by
  decide

/-- The recogniser finds exactly the calls. -/
theorem callOn_eq_some_iff : callOn before s = some (size, receiver) ↔
    startsWord before = true ∧ IsRun isWord receiver ∧ ∃ name rest, IsRun isWord name ∧
      s = receiver ++ '.' :: (name ++ '(' :: rest) ∧ receiver.length + name.length + 2 = size := by
  constructor
  · intro h
    obtain ⟨_, hstart, h⟩ := Option.bind_eq_some_iff.mp h
    obtain ⟨_, hreceiver, h⟩ := Option.bind_eq_some_iff.mp h
    obtain ⟨behindPoint, hpoint, h⟩ := Option.bind_eq_some_iff.mp h
    obtain ⟨_, hname, h⟩ := Option.bind_eq_some_iff.mp h
    obtain ⟨rest, hopen, h⟩ := Option.bind_eq_some_iff.mp h
    obtain ⟨rfl, rfl⟩ := Prod.mk.inj (Option.some.inj h)
    have hpoint := after?_eq_some_iff.mp hpoint
    have hopen := after?_eq_some_iff.mp hopen
    have hbehind : behindPoint = behindPoint.takeWhile isWord ++ '(' :: rest :=
      List.takeWhile_append_dropWhile.symm.trans (congrArg (_ ++ ·) hopen)
    have hs : s = s.takeWhile isWord ++ '.' :: behindPoint :=
      List.takeWhile_append_dropWhile.symm.trans (congrArg (_ ++ ·) hpoint)
    refine ⟨prop_of_guard hstart, ⟨prop_of_guard hreceiver, all_takeWhile isWord s⟩,
      behindPoint.takeWhile isWord, rest, isRun_takeWhile (prop_of_guard hname), ?_, ?_⟩
    · rw [← hbehind]
      exact hs
    · have hlength := congrArg List.length hs
      have hlength' := congrArg List.length hbehind
      simp only [List.length_append, List.length_cons] at hlength hlength'
      omega
  · rintro ⟨hstart, hreceiver, name, rest, hname, rfl, rfl⟩
    have hpoint : ('.' :: (name ++ '(' :: rest)).head?.any isWord = false := isWord_point
    have hopen : ('(' :: rest).head?.any isWord = false := isWord_parenthesis
    have hlength : (receiver ++ '.' :: (name ++ '(' :: rest)).length - rest.length =
        receiver.length + name.length + 2 := by
      simp only [List.length_append, List.length_cons]
      omega
    unfold callOn
    dsimp only
    rw [takeWhile_run hreceiver.2 hpoint, dropWhile_run hreceiver.2 hpoint]
    refine Option.bind_eq_some_iff.mpr ⟨(), if_pos hstart, Option.bind_eq_some_iff.mpr ⟨(),
      if_pos hreceiver.1, Option.bind_eq_some_iff.mpr ⟨name ++ '(' :: rest, rfl,
        Option.bind_eq_some_iff.mpr ⟨(), if_pos (hname.any_head? _),
          Option.bind_eq_some_iff.mpr ⟨rest, ?_, ?_⟩⟩⟩⟩⟩
    · rw [dropWhile_run hname.2 hopen]
      rfl
    · rw [hlength]
      rfl

theorem map_answerAt_iff :
    (answerAt callOn s offset).map Prod.snd = some receiver ↔ CallsAt s receiver offset := by
  rw [Option.map_eq_some_iff]
  constructor
  · rintro ⟨⟨size, r⟩, hanswer, rfl⟩
    obtain ⟨hstart, hreceiver, name, rest, hname, hdrop, -⟩ := callOn_eq_some_iff.mp hanswer
    exact ⟨hstart, hreceiver, name, rest, hname, hdrop⟩
  · rintro ⟨hstart, hreceiver, name, rest, hname, hdrop⟩
    exact ⟨(_, receiver),
      callOn_eq_some_iff.mpr ⟨hstart, hreceiver, name, rest, hname, hdrop, rfl⟩, rfl⟩

instance (s receiver : Text) (offset : Nat) : Decidable (CallsAt s receiver offset) :=
  decidable_of_iff _ map_answerAt_iff

/-- The offsets at which a receiver is called, in order. -/
def callSites (s receiver : Text) : List Nat :=
  (List.range s.length).filter fun offset => CallsAt s receiver offset

theorem mem_callSites_iff : offset ∈ callSites s receiver ↔ CallsAt s receiver offset := by
  rw [callSites, List.mem_filter, List.mem_range, decide_eq_true_iff]
  refine ⟨And.right, fun h => ⟨?_, h⟩⟩
  obtain ⟨-, -, name, rest, -, hdrop⟩ := h
  have hlength := congrArg List.length hdrop
  simp only [List.length_drop, List.length_append, List.length_cons] at hlength
  omega

/-! ### No call inside of another one -/

theorem apart_callOn : Apart callOn := by
  intro before s size receiver h offset hpos hlt
  obtain ⟨-, hreceiver, name, rest, hname, rfl, rfl⟩ := callOn_eq_some_iff.mp h
  cases hanswer : answerFrom callOn before (receiver ++ '.' :: (name ++ '(' :: rest)) offset with
  | none => rfl
  | some answer =>
    obtain ⟨hstart, hreceiver', name', rest', -, hdrop, -⟩ := callOn_eq_some_iff.mp hanswer
    have hcases : offset ≤ receiver.length ∨ offset = receiver.length + 1 ∨
        receiver.length + 1 < offset ∧ offset ≤ receiver.length + 1 + name.length := by
      omega
    obtain hwithin | rfl | ⟨hbehind, hwithin⟩ := hcases
    -- Inside of the receiver no word begins.
    · have hlast := any_getLast?_take hreceiver.2 [] ('.' :: (name ++ '(' :: rest)) hpos
        (by rwa [List.length_nil, Nat.zero_add])
      rw [List.nil_append] at hlast
      rw [startsWord_or hlast] at hstart
      contradiction
    -- The name has a parenthesis behind it, and not a point.
    · rw [List.drop_length_add_append] at hdrop
      have hopen : ('(' :: rest).head?.any isWord = false := isWord_parenthesis
      have hpoint : ('.' :: (name' ++ '(' :: rest')).head?.any isWord = false := isWord_point
      have hbehind : '(' :: rest = '.' :: (name' ++ '(' :: rest') := by
        rw [← dropWhile_run hname.2 hopen, ← dropWhile_run hreceiver'.2 hpoint, ← hdrop]
        rfl
      exact absurd (List.cons.inj hbehind).1 (by decide)
    -- Inside of the name no word begins, and none begins with the parenthesis.
    · have hlast := any_getLast?_take hname.2 (receiver ++ ['.']) ('(' :: rest)
        (by rwa [List.length_append]) (by rwa [List.length_append])
      rw [List.append_assoc, List.singleton_append] at hlast
      rw [startsWord_or hlast] at hstart
      contradiction

/-- The findings of the scan are the receivers of the calls at all offsets, in order. -/
theorem map_value_scan_callOn (s : Text) : (s.scan callOn).map Hit.value =
    (List.range s.length).filterMap fun offset => (answerAt callOn s offset).map Prod.snd := by
  rw [scan_of_apart apart_callOn, List.map_filterMap]
  simp only [Option.map_map, Function.comp_def]

/-- Every receiver is listed once, in the order of the first calls, and with the number of places at
which it is called. -/
theorem exists_callCounts_eq (s : Text) : ∃ receivers : List Text,
    s.callCounts = receivers.map (fun r => (r, (s.callSites r).length)) ∧
    (∀ r, r ∈ receivers ↔ s.callSites r ≠ []) ∧
    receivers.Pairwise fun r r' => ∃ i ∈ s.callSites r, ∀ j ∈ s.callSites r', i < j := by
  let heard (offset : Nat) : Option Text := (answerAt callOn s offset).map Prod.snd
  have hheard (r : Text) (offset : Nat) : heard offset = some r ↔ offset ∈ s.callSites r :=
    map_answerAt_iff.trans mem_callSites_iff.symm
  obtain ⟨receivers, htally, hmem, hpairwise⟩ :=
    Entries.exists_tally_filterMap_range heard s.length
  refine ⟨receivers, ?_, fun r => ?_, hpairwise.imp fun {r r'} h => ?_⟩
  · rw [callCounts, map_value_scan_callOn, htally]
    refine List.map_congr_left fun r _ => ?_
    have hsites : ((List.range s.length).filter fun i => heard i = some r) = s.callSites r :=
      List.filter_congr fun i _ => decide_eq_decide.mpr map_answerAt_iff
    rw [hsites]
  · rw [hmem]
    constructor
    · rintro ⟨i, -, hi⟩
      exact List.ne_nil_of_mem ((hheard r i).mp hi)
    · intro hsites
      obtain ⟨i, hi⟩ := List.exists_mem_of_ne_nil _ hsites
      exact ⟨i, List.mem_range.mp (List.mem_filter.mp hi).1, (hheard r i).mpr hi⟩
  · obtain ⟨i, hi, hlt⟩ := h
    exact ⟨i, (hheard r i).mp hi, fun j hj => hlt j ((hheard r' j).mpr hj)⟩

end Text

namespace Rule

open Text

def overusedReceiver (receiver : Text) : Smell where
  category := .text "Couplers"
  name := .text "Feature Envy"
  description := .text ("Class makes too many calls to " ++ String.ofList receiver)

variable {ctx : Context} {s : Text} {v : Value} {m : Int}

theorem scan_featureEnvy_eq (hraw : ctx.raw = .text s)
    (hthreshold : ctx.threshold featureEnvy.id .featureEnvyCalls = .ok v)
    (hv : v.number? = some (.int m)) :
    featureEnvy.scan ctx = .ok
      ((s.callCounts.filter fun entry => decide (m < entry.2)).map fun entry =>
        overusedReceiver entry.1) := by
  have hoften : (s.callCounts.filterM fun entry => Fault.lift ((Value.nat entry.2).gt v)) =
      .ok (s.callCounts.filter fun entry => decide (m < entry.2)) :=
    filterM_ok fun entry _ => congrArg Fault.lift (Value.nat_gt_of_number? hv entry.2)
  have hfind : featureEnvy.find (ctx.threshold featureEnvy.id) ctx =
      .ok ((s.callCounts.filter fun entry => decide (m < entry.2)).map fun entry =>
        "Class makes too many calls to " ++ String.ofList entry.1) := by
    refine (bind_eq_of_eq_ok (congrArg Fault.lift hthreshold) _).trans ?_
    refine (bind_eq_of_eq_ok (Context.searched_of_raw hraw) _).trans ?_
    exact bind_eq_of_eq_ok hoften _
  rw [scan_of_find hfind, List.map_map]
  rfl

/-- Where the threshold is a whole number, there is one smell for each receiver that is called at
more places than that, in the order of the first calls, and no other one. A threshold that is not
negative leaves no other words to be considered. -/
theorem scan_featureEnvy (hraw : ctx.raw = .text s)
    (hthreshold : ctx.threshold featureEnvy.id .featureEnvyCalls = .ok v)
    (hv : v.number? = some (.int m)) :
    ∃ receivers : List Text, featureEnvy.scan ctx = .ok (receivers.map overusedReceiver) ∧
      (∀ r, r ∈ receivers ↔ s.callSites r ≠ [] ∧ m < (s.callSites r).length) ∧
      (0 ≤ m → ∀ r, r ∈ receivers ↔ m < (s.callSites r).length) ∧
      receivers.Pairwise (fun r r' => ∃ i ∈ s.callSites r, ∀ j ∈ s.callSites r', i < j) ∧
      ∀ r offset, offset ∈ s.callSites r ↔ s.CallsAt r offset := by
  obtain ⟨receivers, hcounts, hmem, hpairwise⟩ := exists_callCounts_eq s
  have hoften (r : Text) : r ∈ receivers.filter (fun r => decide (m < (s.callSites r).length)) ↔
      s.callSites r ≠ [] ∧ m < (s.callSites r).length := by
    rw [List.mem_filter, hmem, decide_eq_true_iff]
  refine ⟨receivers.filter fun r => decide (m < (s.callSites r).length), ?_, hoften, ?_,
    hpairwise.filter _, fun r offset => mem_callSites_iff⟩
  · rw [scan_featureEnvy_eq hraw hthreshold hv, hcounts, List.filter_map, List.map_map]
    rfl
  · intro hm r
    refine (hoften r).trans ⟨And.right, fun h => ⟨?_, h⟩⟩
    refine List.ne_nil_of_length_pos ?_
    omega

/-- Chained and nested calls: of two receivers one is called at six places and one at a single
place, and what stands at the head of a chain is not called there. -/
theorem scan_featureEnvy_chained :
    let s : Text := "x.b.c(b.d(x.e(b.f(b.g(b.h(b.i(1)))))))".toList
    (s.callSites "b".toList).length = 6 ∧ s.callSites "x".toList = [10] ∧
      ∃ receivers : List Text, "b".toList ∈ receivers ∧ "x".toList ∉ receivers ∧
        featureEnvy.scan (.ofSource (.text s) none .firstBrace) =
          .ok (receivers.map overusedReceiver) := by
  intro s
  let ctx : Context := .ofSource (.text s) none .firstBrace
  have hraw : ctx.raw = .text s := rfl
  have hsix : (s.callSites "b".toList).length = 6 := by decide +kernel
  have hone : s.callSites "x".toList = [10] := by decide +kernel
  obtain ⟨receivers, hscan, -, hmem, -⟩ := scan_featureEnvy hraw (v := .int 5) (m := 5) rfl rfl
  refine ⟨hsix, hone, receivers, ?_, ?_, hscan⟩
  · rw [hmem (by decide), hsix]
    decide
  · rw [hmem (by decide), hone]
    decide

end Rule

end CodeHealth
