import Mathlib.Data.Multiset.DershowitzManna
import PayloadSchema.Proofs.Extraction.Equivalence

/-!
# Extraction ends without its limit

Each item that is handled leaves the queue, and the items that take its place are further down.  So the limit
on the number of items is never needed, and where it is large enough nothing depends on it.
-/

namespace PayloadSchema.Extraction

open Schema

/-! ## Draining -/

def Context.within (c : Context) (limit : Nat) : Context :=
  { c with limit := limit }

noncomputable def Workspace.load (s : Schema) (w : Workspace) : Multiset (Nat ×ₗ (Nat ×ₗ Nat)) :=
  w.items.map fun i => depth s i.path i.origin

/-- A run that ends in a workspace with a property, and that fails only with faults that have one. -/
structure Leads {α : Type} (good : Workspace → Prop) (fair : Fault → Prop)
    (run : Except Fault α × Workspace) : Prop where
  good : good run.2
  fair : ∀ f, run.1 = .error f → fair f

section Leads

variable {α β : Type} {good : Workspace → Prop} {fair : Fault → Prop} {w : Workspace}

theorem leads_pure (a : α) (hw : good w) : Leads good fair ((pure a : Work α).runIn w) :=
  ⟨hw, by rintro _ ⟨⟩⟩

theorem Leads.bind {m : Work α} {next : α → Work β} (hm : Leads good fair (m.runIn w))
    (hnext : ∀ a w', m.runIn w = (.ok a, w') → good w' → Leads good fair ((next a).runIn w')) :
    Leads good fair ((m >>= next).runIn w) := by
  rw [Work.runIn_bind]
  match hrun : m.runIn w with
  | (.error f, w') =>
    rw [hrun] at hm
    exact ⟨hm.good, fun f' hf' => hm.fair f' (by cases hf'; rfl)⟩
  | (.ok a, w') =>
    rw [hrun] at hm
    exact hnext a w' hrun hm.good

end Leads

section Drain

variable {c : Context} {w w' w₁ : Workspace} {item : WorkItem} {rest : List WorkItem}
  {q : Queue WorkItem} {r : Except Fault Unit} {limit : Nat} {seed : Seed}

theorem register_within : seed.register (c.within limit) = seed.register c := by
  cases seed <;> rfl

theorem load_handle (hs : c.source.Proper) (hw : w.Traced c.source) (hitems : w.items = item :: rest)
    (hq : q.toList = rest) (h : (handle c item).runIn (w.taken q) = (r, w')) :
    Multiset.IsDershowitzMannaLT (w'.load c.source) (w.load c.source) := by
  obtain ⟨-, -, ⟨new, hnew, hbelow⟩, -⟩ := handle_spec hs hw hitems hq h
  refine ⟨(rest.map fun i => depth c.source i.path i.origin : List _),
    (new.map fun i => depth c.source i.path i.origin : List _),
    {depth c.source item.path item.origin}, by simp, ?_, ?_, ?_⟩
  · rw [Workspace.load, hnew, List.map_append, Multiset.coe_add]
  · rw [Workspace.load, hitems, List.map_cons, Multiset.add_comm]
    rfl
  · intro d hd
    obtain ⟨i, hi, rfl⟩ := List.mem_map.1 (Multiset.mem_coe.1 hd)
    exact ⟨_, Multiset.mem_singleton_self _, hbelow i hi⟩

/-- With a budget that is large enough a drain empties the queue or comes upon a genuine fault, and does the
same whatever the budget and the limit are. -/
theorem drainWithin_settles (hs : c.source.Proper) (hw : w.Traced c.source) :
    ∃ least r w', (∀ budget ≥ least, ∀ limit,
        (drainWithin (c.within limit) budget).runIn w = (r, w')) ∧
      Leads (Workspace.Traced c.source) (Genuine c.source) (r, w') ∧ (r = .ok () → w'.items = []) := by
  have hfounded : WellFounded (Multiset.IsDershowitzMannaLT (α := Nat ×ₗ (Nat ×ₗ Nat))) :=
    Multiset.wellFounded_isDershowitzMannaLT
  induction hload : w.load c.source using hfounded.induction generalizing w with
  | _ load ih =>
    subst hload
    rcases runIn_drainWithin w with ⟨hempty, hrun⟩ | ⟨item, rest, q, hitems, hq, -, hrun⟩
    · exact ⟨0, .ok (), w, fun budget _ limit => hrun _ budget, ⟨hw, by rintro _ ⟨⟩⟩, fun _ => hempty⟩
    match hhandle : (handle c item).runIn (w.taken q) with
    | (.error f, w₁) =>
      obtain ⟨htraced, -, -, hintrinsic⟩ := handle_spec hs hw hitems hq hhandle
      refine ⟨1, .error f, w₁, fun budget hbudget limit => ?_,
        ⟨htraced, fun f hf => (hintrinsic f hf).genuine⟩, by rintro ⟨⟩⟩
      obtain ⟨budget, rfl⟩ : ∃ b, budget = b + 1 := ⟨budget - 1, by omega⟩
      rw [hrun]
      exact Work.runIn_bind_eq_error.2 (.inl hhandle)
    | (.ok _, w₁) =>
      obtain ⟨htraced, -, -, -⟩ := handle_spec hs hw hitems hq hhandle
      obtain ⟨least, r, w', hrest, hsettles, hempty⟩ :=
        ih _ (load_handle hs hw hitems hq hhandle) htraced rfl
      refine ⟨least + 1, r, w', fun budget hbudget limit => ?_, hsettles, hempty⟩
      obtain ⟨budget, rfl⟩ : ∃ b, budget = b + 1 := ⟨budget - 1, by omega⟩
      rw [hrun]
      exact (Work.runIn_bind_of_ok hhandle).trans (hrest budget (by omega) limit)

/-- A drain keeps what is kept as items are taken and handled, and stops at the limit or at a fault that an item is
handled with. -/
theorem leads_drainWithin {good : Workspace → Prop} {fair : Fault → Prop}
    (handled : ∀ {w w' : Workspace} {item : WorkItem} {q : Queue WorkItem} {r : Except Fault Unit},
      good w → next?.runIn w = (.ok (some item), { w with queue := q }) →
      (handle c item).runIn (w.taken q) = (r, w') → good w' ∧ ∀ f, r = .error f → fair f)
    (refused : ∀ {w : Workspace} {item : WorkItem} {q : Queue WorkItem}, good w →
      next?.runIn w = (.ok (some item), { w with queue := q }) → good { w with queue := q })
    (hw : good w) (budget : Nat) :
    Leads good (fun f => f = .problem (.workLimit c.limit) ∨ fair f) ((drainWithin c budget).runIn w) := by
  induction budget generalizing w with
  | zero =>
    rcases runIn_drainWithin w with ⟨-, hrun⟩ | ⟨item, rest, q, -, -, hnext, hrun⟩
    · rw [hrun]
      exact leads_pure () hw
    · rw [hrun]
      exact ⟨refused hw hnext, fun f hf => .inl (by cases hf; rfl)⟩
  | succ budget ih =>
    rcases runIn_drainWithin w with ⟨-, hrun⟩ | ⟨item, rest, q, hitems, hq, hnext, hrun⟩
    · rw [hrun]
      exact leads_pure () hw
    · rw [hrun]
      obtain ⟨hgood, hfair⟩ := handled hw hnext rfl
      exact Leads.bind (m := Extraction.handle c item) ⟨hgood, fun f hf => .inr (hfair f hf)⟩
        fun _ w' _ hw' => ih hw'

theorem leads_runAll {good : Workspace → Prop} {fair : Fault → Prop} {calls : List Call} (hs : c.source.Proper)
    (hseeds : ∀ seed ∈ calls.flatMap Call.seeds, seed.IsFrom c.source)
    (registered : ∀ {w w' : Workspace} {seed : Seed} {r : Except Fault Place}, good w → seed.IsFrom c.source →
      (seed.register c).runIn w = (r, w') → good w')
    (drained : ∀ {w : Workspace} (budget : Nat), good w → Leads good fair ((drainWithin c budget).runIn w))
    (hw : good w) : Leads good fair ((Call.runAll c calls).runIn w) := by
  induction calls generalizing w with
  | nil => exact leads_pure [] hw
  | cons call calls ih =>
    have hcall : Leads good fair ((call.run c).runIn w) := by
      cases call with
      | extract seed =>
        have hseed := hseeds seed (by simp [Call.seeds])
        obtain ⟨w', hregister, -⟩ := register_spec hs hseed w
        rw [Call.run, Work.runIn_bind_of_ok hregister]
        exact leads_pure [w.store.size] (registered hw hseed hregister)
      | drain => exact (drained (c.limit - w.handled) hw).bind fun _ _ _ hw' => leads_pure [] hw'
    rw [Call.runAll]
    refine hcall.bind fun first w₁ _ hw₁ => ?_
    exact (ih (fun seed hseed => hseeds seed (by simp_all)) hw₁).bind fun others w₂ _ hw₂ =>
      leads_pure (first ++ others) hw₂

/-- With limits that are large enough, calls in any order do the same whatever the limit is. -/
theorem runAll_settles (hs : c.source.Proper) (calls : List Call)
    (hseeds : ∀ seed ∈ calls.flatMap Call.seeds, seed.IsFrom c.source) (hw : w.Traced c.source) :
    ∃ least r w', (∀ limit ≥ least, (Call.runAll (c.within limit) calls).runIn w = (r, w')) ∧
      Leads (Workspace.Traced c.source) (Genuine c.source) (r, w') := by
  induction calls generalizing w with
  | nil => exact ⟨0, .ok [], w, fun _ _ => rfl, hw, by rintro _ ⟨⟩⟩
  | cons call calls ih =>
    have hcall : ∃ least r w₁, (∀ limit ≥ least, (call.run (c.within limit)).runIn w = (r, w₁)) ∧
        Leads (Workspace.Traced c.source) (Genuine c.source) (r, w₁) := by
      cases call with
      | extract seed =>
        obtain ⟨w₁, hregister, -, htraced⟩ :=
          register_spec hs (hseeds seed (by simp [Call.seeds])) w
        refine ⟨0, .ok [w.store.size], w₁, fun limit _ => ?_, htraced hw, by rintro _ ⟨⟩⟩
        rw [Call.run, register_within, Work.runIn_bind_of_ok hregister, Work.runIn_pure]
      | drain =>
        obtain ⟨least, r, w₁, hdrain, ⟨htraced, hgenuine⟩, -⟩ := drainWithin_settles hs hw
        refine ⟨least + w.handled, r.map fun _ => [], w₁, fun limit hlimit => ?_, htraced,
          fun f hf => hgenuine f ?_⟩
        · have hbudget : (c.within limit).limit - w.handled ≥ least := by
            change limit - w.handled ≥ least
            omega
          have hrun : (drain (c.within limit)).runIn w = (r, w₁) :=
            (Work.runIn_bind_of_ok (Work.runIn_get w)).trans (hdrain _ hbudget limit)
          rw [Call.run, Work.runIn_bind, hrun]
          cases r <;> rfl
        · cases r with
          | error f' => simpa [Except.map] using hf
          | ok _ => cases hf
    obtain ⟨least, r, w₁, hrun, htraced, hgenuine⟩ := hcall
    cases r with
    | error f =>
      refine ⟨least, .error f, w₁, fun limit hlimit => ?_, htraced, fun f' hf' => hgenuine f' ?_⟩
      · rw [Call.runAll, Work.runIn_bind, hrun limit hlimit]
      · cases hf'
        rfl
    | ok first =>
      obtain ⟨least', r', w', hrest, htraced', hgenuine'⟩ :=
        ih (fun seed hseed => hseeds seed (by simp_all)) htraced
      refine ⟨max least least', r'.map (first ++ ·), w', fun limit hlimit => ?_, htraced',
        fun f hf => hgenuine' f ?_⟩
      · rw [Call.runAll, Work.runIn_bind_of_ok (hrun limit (by omega)), Work.runIn_bind,
          hrest limit (by omega)]
        cases r' <;> rfl
      · cases r' with
        | error f' => simpa [Except.map] using hf
        | ok _ => cases hf

end Drain

/-! ## Workspaces on the way -/

/-- The workspaces that an extraction goes through: new ones, and what is made of them when a component of
the source is asked for and when the next item is handled or refused. -/
inductive Reached (c : Context) : Workspace → Prop where
  | new (target : Schema) : Reached c (.ofSchema target)
  | register {w w' : Workspace} {seed : Seed} {r : Except Fault Place} (hw : Reached c w)
      (hseed : seed.IsFrom c.source) (hrun : (seed.register c).runIn w = (r, w')) : Reached c w'
  | handle {w w' : Workspace} {item : WorkItem} {q : Queue WorkItem} {r : Except Fault Unit}
      (hw : Reached c w) (hnext : next?.runIn w = (.ok (some item), { w with queue := q }))
      (hrun : (handle c item).runIn (w.taken q) = (r, w')) : Reached c w'
  | refuse {w : Workspace} {item : WorkItem} {q : Queue WorkItem} (hw : Reached c w)
      (hnext : next?.runIn w = (.ok (some item), { w with queue := q })) :
      Reached c { w with queue := q }

section Reached

variable {c : Context} {w w' : Workspace} {item : WorkItem} {q : Queue WorkItem}

theorem items_of_next? (h : next?.runIn w = (.ok (some item), { w with queue := q })) :
    w.items = item :: q.toList := by
  rcases runIn_next? w with ⟨-, hnext⟩ | ⟨item', rest, q', hitems, hq, hnext⟩
  · rw [h] at hnext
    cases hnext
  · rw [h] at hnext
    simp only [Prod.mk.injEq, Except.ok.injEq, Option.some.injEq, Workspace.mk.injEq, true_and,
      and_true] at hnext
    obtain ⟨rfl, rfl⟩ := hnext
    rw [Workspace.items, hitems, hq]

theorem Reached.traced (hs : c.source.Proper) (h : Reached c w) : w.Traced c.source := by
  induction h with
  | new target =>
    intro i hi
    rw [items_ofSchema] at hi
    cases hi
  | register _ hseed hrun ih =>
    obtain ⟨w'', hregister, -, htraced⟩ := register_spec hs hseed _
    cases hrun.symm.trans hregister
    exact htraced ih
  | handle _ hnext hrun ih => exact (handle_spec hs ih (items_of_next? hnext) rfl hrun).1
  | refuse _ hnext ih =>
    intro i hi
    exact ih i (by rw [items_of_next? hnext]; exact List.mem_cons_of_mem _ hi)

/-- A drain goes through reached workspaces, and stops at the limit or at a genuine fault. -/
theorem Reached.drainWithin (hs : c.source.Proper) (hw : Reached c w) (budget : Nat) :
    Leads (Reached c) (fun f => f = .problem (.workLimit c.limit) ∨ Genuine c.source f)
      ((drainWithin c budget).runIn w) := by
  refine leads_drainWithin (fun hw hnext hrun => ⟨hw.handle hnext hrun, fun f hf => ?_⟩)
    (fun hw hnext => hw.refuse hnext) hw budget
  obtain ⟨-, -, -, hintrinsic⟩ := handle_spec hs (hw.traced hs) (items_of_next? hnext) rfl hrun
  exact (hintrinsic f hf).genuine

theorem Reached.runAll {calls : List Call} (hs : c.source.Proper)
    (hseeds : ∀ seed ∈ calls.flatMap Call.seeds, seed.IsFrom c.source) (hw : Reached c w) :
    Leads (Reached c) (fun f => f = .problem (.workLimit c.limit) ∨ Genuine c.source f)
      ((Call.runAll c calls).runIn w) :=
  leads_runAll hs hseeds (fun hw hseed hrun => hw.register hseed hrun) (fun budget hw => hw.drainWithin hs budget) hw

end Reached

/-! ## The end of an extraction -/

theorem Tracks.drained {c : Context} {w w' : Workspace} {seeds : List Seed} {roots ps : List Place}
    {calls : List Call} (h : Tracks c w seeds roots)
    (hname : ∀ seed ∈ calls.flatMap Call.seeds, seed.HasName)
    (hrun : (Call.runAll c (calls ++ [.drain])).runIn w = (.ok ps, w')) : w'.items = [] := by
  induction calls generalizing w seeds roots ps with
  | nil =>
    simp only [List.nil_append, Call.runAll, Call.run, Work.runIn_bind_eq_ok, Work.runIn_pure] at hrun
    obtain ⟨_, _, ⟨_, _, hdrain, hpure⟩, _, _, hnil, hend⟩ := hrun
    cases hpure
    cases hnil
    cases hend
    exact (h.drain hdrain).2
  | cons call calls ih =>
    rw [List.cons_append, Call.runAll, Work.runIn_bind_eq_ok] at hrun
    obtain ⟨first, w₁, hfirst, hrun⟩ := hrun
    rw [Work.runIn_bind_eq_ok] at hrun
    obtain ⟨others, w₂, hothers, hend⟩ := hrun
    cases hend
    have hcall := h.call (fun seed hseed => hname seed (by simp [hseed])) hfirst
    exact ih hcall (fun seed hseed => hname seed (by simp_all)) hothers

/-- Calls in any order that end with a drain, made with a limit that is large enough, leave an empty queue or
end with a problem that is not the limit, and the limit has no part in it.  Whatever the limit is, no path
of an item that ever waits names a component twice, and only a component that can be reached from itself is
called circular. -/
theorem extraction_settles {source : Schema} (hread : IsRead source) (target : Schema)
    (calls : List Call) (hseeds : ∀ seed ∈ calls.flatMap Call.seeds, seed.IsFrom source) :
    (∃ least result w, (∀ limit ≥ least,
        (Call.runAll (.between source target limit) (calls ++ [.drain])).runIn (.ofSchema target) =
          (result, w)) ∧
      ((∃ roots, result = .ok roots) ∧ w.items = [] ∨
        ∃ p, result = .error (.problem p) ∧ ∀ limit, p ≠ .workLimit limit)) ∧
    (∀ limit w, Reached (.between source target limit) w → ∀ i ∈ w.items, i.path.Nodup) ∧
    ∀ limit result w,
      (Call.runAll (.between source target limit) calls).runIn (.ofSchema target) = (result, w) →
      Reached (.between source target limit) w ∧
        ∀ p, result = .error (.problem p) → p.errorClass = .circularReference →
          ∃ chain q table, Reaches source ⟨table, q⟩ ⟨table, q⟩ ∧
            (p = .circularType chain q ∧ table ≠ .attributeGroups ∨
              p = .circularAttributeGroup chain q ∧ table = .attributeGroups) := by
  have hs : source.Proper := hread.proper
  refine ⟨?_, fun limit w hw i hi => ((hw.traced hs) i hi).1.nodup, fun limit result w hrun => ?_⟩
  · have hnew : (Workspace.ofSchema target).Traced source :=
      (Reached.new (c := .between source target 0) target).traced hs
    have hwith : ∀ seed ∈ (calls ++ [Call.drain]).flatMap Call.seeds, seed.IsFrom source := by
      simpa [Call.seeds] using hseeds
    obtain ⟨least, result, w, hrun, hleads⟩ :=
      runAll_settles (c := .between source target 0) hs (calls ++ [.drain]) hwith hnew
    refine ⟨least, result, w, hrun, ?_⟩
    cases result with
    | ok roots =>
      refine .inl ⟨⟨roots, rfl⟩, ?_⟩
      exact (tracks_ofSchema (.between source target least) target).drained
        (fun seed hseed => Seed.IsFrom.hasName (c := .between source target least) (hseeds seed hseed))
        (hrun least (Nat.le_refl _))
    | error f =>
      obtain ⟨p, rfl, hlimit, -⟩ := hleads.fair f rfl
      exact .inr ⟨p, rfl, hlimit⟩
  · have hleads := (Reached.new (c := .between source target limit) target).runAll hs hseeds
    rw [hrun] at hleads
    refine ⟨hleads.good, fun p hp hclass => ?_⟩
    rcases hleads.fair _ hp with hlimit | ⟨p', hp', -, hcircle⟩
    · cases hlimit
      cases hclass
    · cases hp'
      exact hcircle hclass

def loopCalls : List Call := orderCalls ++ [.extract (.element loopElement true), .drain]

theorem loopCalls_isFrom : ∀ seed ∈ loopCalls.flatMap Call.seeds, seed.IsFrom orderSchema := by
  intro seed hseed
  obtain hseed | rfl : seed ∈ orderSeeds ∨ seed = .element loopElement true := by
    simpa [loopCalls, orderCalls, orderSeeds, Call.seeds, or_assoc] using hseed
  · exact orderSeeds_isFrom seed hseed
  · exact ⟨.entry .elements (e := (some "loop", loopElement)) (by simp [orderSchema, SchemaOf.table]), rfl⟩

/-- What comes of the calls with a limit that they do not come to. -/
def loopRun : Except Fault (List Place) × Workspace :=
  (Call.runAll orderContext loopCalls).runIn (.ofSchema (.empty "urn:s" defaultForm defaultForm))

/-- The chain and the name of a circle that a run stops with. -/
def circle? {α : Type} : Except Fault α → Option (List QName × QName)
  | .error (.problem (.circularType chain q)) => some (chain, q)
  | _ => none

theorem eq_error_of_circle? {α : Type} {r : Except Fault α} {chain : List QName} {q : QName}
    (h : circle? r = some (chain, q)) : r = .error (.problem (.circularType chain q)) := by
  rw [circle?.eq_def] at h
  split at h
  · cases h
    rfl
  · cases h

theorem loopRun_eq :
    loopRun.1 = .error (.problem (.circularType [⟨"urn:s", "loop"⟩] ⟨"urn:s", "loop"⟩)) :=
  eq_error_of_circle? (by decide +kernel)

/-- The sample settles, though its last element contains itself, which is what the extraction says of it. -/
theorem extraction_settles_sample :
    (∃ least result w, ∀ limit ≥ least,
      (Call.runAll (.between orderSchema (.empty "urn:s" defaultForm defaultForm) limit)
        (loopCalls ++ [.drain])).runIn (.ofSchema (.empty "urn:s" defaultForm defaultForm)) = (result, w)) ∧
    (∀ i ∈ loopRun.2.items, i.path.Nodup) ∧
    ∃ table, Reaches orderSchema ⟨table, ⟨"urn:s", "loop"⟩⟩ ⟨table, ⟨"urn:s", "loop"⟩⟩ := by
  obtain ⟨⟨least, result, w, hrun, -⟩, hpaths, hcircles⟩ := extraction_settles isRead_orderSchema
    (.empty "urn:s" defaultForm defaultForm) loopCalls loopCalls_isFrom
  have hloop : loopRun = (loopRun.1, loopRun.2) := Prod.mk.eta.symm
  obtain ⟨hreached, hcircle⟩ := hcircles 60 loopRun.1 loopRun.2 hloop
  obtain ⟨chain, q, table, hreaches, ⟨hp, -⟩ | ⟨hp, -⟩⟩ := hcircle _ loopRun_eq rfl
  · cases hp
    exact ⟨⟨least, result, w, hrun⟩, hpaths 60 _ hreached, table, hreaches⟩
  · cases hp

end PayloadSchema.Extraction
