import RemoteTaskManager.Framework.Triple
import RemoteTaskManager.Impl.Win32Process
import RemoteTaskManager.Spec.ComProtocol

/-!
# The calls of a connection are in order

Each call of COM that a `wmi_state_t` makes is in order after those before it,
and what they gave is what the object holds (`Owns`): its constructor, `connect`
and `query` keep it so, and its destructor releases all of it. So the calls of a
listing, and of a termination, are in order from nothing to nothing, however
they end (`getWmiWin32Process_held`, `terminateProcessByPid_held`).
-/

namespace RTM.Proof.ComProtocol

open RTM.Impl RTM.Spec

/-- The calls so far are in order, and have left this. -/
def Held (h₀ : ComHeld) (locator service enumerator : Bool) (s : Com) : Prop :=
  run ComHeld.step h₀ s.calls = some ⟨s.secRes.isSome, locator, service, enumerator⟩

/-- They have left what the object holds. -/
def Owns (h₀ : ComHeld) (enumerator : Bool) (s : WmiStateT × Com) : Prop :=
  Held h₀ s.1.locator s.1.service enumerator s.2

/-- A query that succeeds gives an enumerator, and one that fails gives none. -/
def Gives (M : Machine) : Prop :=
  ∀ queryStr, (M.execQuery queryStr).2.isSome = !failed (M.execQuery queryStr).1

section

variable {h₀ : ComHeld} {l sv e l' sv' e' : Bool} {s : Com} {c : ComCall} {M : Machine}

theorem Held.log (h : Held h₀ l sv e s)
    (hc : ComHeld.step ⟨s.secRes.isSome, l, sv, e⟩ c = some ⟨s.secRes.isSome, l', sv', e'⟩) :
    Held h₀ l' sv' e' (s.log c) := by
  rw [Held, Com.log, run_append h, run, hc, Option.bind_some, run_nil]

theorem Held.releaseIf_locator (h : Held h₀ l sv e s) :
    Held h₀ false sv e (releaseIf l .locator s) := by
  cases l with
  | true => exact h.log rfl
  | false => exact h

theorem Held.releaseIf_service (h : Held h₀ l sv e s) :
    Held h₀ l false e (releaseIf sv .service s) := by
  cases sv with
  | true => exact h.log rfl
  | false => exact h

theorem Held.releaseIf_enumerator (h : Held h₀ l sv e s) :
    Held h₀ l sv false (releaseIf e .enumerator s) := by
  cases e with
  | true => exact h.log rfl
  | false => exact h

/-- The destructor releases what the object holds. -/
theorem Owns.dtor {o : WmiStateT} (h : Owns h₀ false (o, s)) :
    Held h₀ false false false (o.dtor s) := by
  have hinit : Held h₀ o.locator o.service false (o.init.dtor s) := by
    unfold WmiStateCo.dtor
    split
    · exact Held.log h rfl
    · exact h
  exact hinit.releaseIf_service.releaseIf_locator

/-! ## The constructor -/

theorem secRes_held (M : Machine) :
    Triple (Held h₀ false false false) (WmiStateT.secRes M)
      (fun _ s => Held h₀ false false false s ∧ s.secRes.isSome = true)
      (Held h₀ false false false) := by
  rw [WmiStateT.secRes]
  apply Triple.bind_get
  intro s hs
  cases hsec : s.secRes with
  | some hres =>
    rw [if_neg (Option.some_ne_none hres)]
    refine .pure fun t ht => ?_
    subst ht
    exact ⟨hs, by rw [hsec]; rfl⟩
  | none =>
    rw [if_pos rfl]
    -- The call is in order, for none before it succeeded.
    refine .bind (R := fun _ t => t = s.log (.coInitializeSecurity M.coInitializeSecurity))
      (.modify fun t ht => by rw [ht]) fun _ => ?_
    cases hf : failed M.coInitializeSecurity with
    | true =>
      refine .throw fun t ht => ?_
      subst ht
      refine hs.log ?_
      simp [ComHeld.step, hsec, hf]
    | false =>
      refine .modify fun t ht => ?_
      subst ht
      refine ⟨?_, rfl⟩
      rw [Held, Com.log, run_append hs, run]
      simp [ComHeld.step, hsec, hf]

theorem coCtor_held (M : Machine) :
    Triple (Held h₀ false false false) (WmiStateCo.ctor M) (fun _ => Held h₀ false false false)
      (Held h₀ false false false) := by
  rw [WmiStateCo.ctor]
  refine .bind (R := fun _ => Held h₀ false false false) (.modify fun s hs => hs.log rfl) fun _ => ?_
  exact .ite (fun _ => .throw fun _ h => h) fun _ => .pure fun _ h => h

/-- The object that `ctorBody` works on holds nothing. -/
theorem ctorBody_owns (M : Machine) :
    Triple (fun s => Held h₀ false false false s.2 ∧ s.1.locator = false ∧ s.1.service = false)
      (WmiStateT.ctorBody M) (fun _ s => Owns h₀ false s ∧ s.1.service = false) (Owns h₀ false) := by
  rw [WmiStateT.ctorBody]
  refine .bind (R := fun _ s => (Held h₀ false false false s.2 ∧ s.2.secRes.isSome = true) ∧
    s.1.locator = false ∧ s.1.service = false) (.outer fun o => ?_) fun _ => ?_
  · refine .of_forall fun s hs => ?_
    refine (secRes_held M).imp (fun t ht => ?_) (fun _ t ht => ⟨ht, hs.2⟩) fun t ht => ?_
    · rw [ht]
      exact hs.1
    · rw [Owns, hs.2.1, hs.2.2]
      exact ht
  · refine .bind (R := fun _ s => Held h₀ (!failed M.coCreateInstance) false false s.2 ∧
      s.1.locator = false ∧ s.1.service = false) (.outer fun o => .modify fun s hs => ?_) fun _ => ?_
    · obtain ⟨⟨hs, hsec⟩, ho⟩ := hs
      exact ⟨hs.log (by simp [ComHeld.step, hsec]), ho⟩
    · cases failed M.coCreateInstance with
      | true =>
        rw [if_pos rfl]
        refine .bind (R := fun _ => Owns h₀ false) (.outer fun o => .modify fun s hs => ?_)
          fun _ => .throw fun _ h => h
        obtain ⟨hs, hl, hsv⟩ := hs
        have ho : Held h₀ o.locator o.service false s := by
          rw [hl, hsv]
          exact hs
        exact ho.log rfl
      | false =>
        rw [if_neg Bool.false_ne_true]
        refine .modifyLocal fun o s hs => ?_
        obtain ⟨hs, -, hsv⟩ := hs
        refine ⟨?_, hsv⟩
        rw [Owns, hsv]
        exact hs

theorem ctor_owns (M : Machine) :
    Triple (Held h₀ false false false) (WmiStateT.ctor M)
      (fun o s => Owns h₀ false (o, s) ∧ o.service = false) (Held h₀ false false false) := by
  rw [WmiStateT.ctor]
  refine .bind (coCtor_held M) fun init => ?_
  refine .construct (J := fun s => Held h₀ false false false s.2 ∧ s.1.locator = false ∧
    s.1.service = false) (fun s hs => ⟨hs, rfl, rfl⟩) ?_
  exact (ctorBody_owns M).imp (fun _ h => h) (fun _ _ h => h) fun _ h => Owns.dtor h

/-! ## The connection -/

/-- A call of COM through the service. -/
theorem log_owns {e f : Bool} {E : WmiStateT × Com → Prop}
    (hc : ∀ b l, ComHeld.step ⟨b, l, true, e⟩ c = some ⟨b, l, true, f⟩) :
    Triple (fun s => Owns h₀ e s ∧ s.1.service = true)
      (ExecM.outer (ExecM.modify (·.log c)) : ExecM (WmiStateT × Com) Exn Unit)
      (fun _ s => Owns h₀ f s ∧ s.1.service = true) E := by
  refine .outer fun o => .modify fun s hs => ⟨?_, hs.2⟩
  have h : Held h₀ o.locator o.service e s := hs.1
  have ho : o.service = true := hs.2
  show Held h₀ o.locator o.service f (s.log c)
  rw [ho] at h ⊢
  exact h.log (hc _ _)

theorem setProxyBlanket_owns (M : Machine) :
    Triple (fun s => Owns h₀ e s ∧ s.1.service = true) (WmiStateT.setProxyBlanket M)
      (fun _ s => Owns h₀ e s ∧ s.1.service = true) (Owns h₀ e) := by
  rw [WmiStateT.setProxyBlanket]
  refine .bind (log_owns fun _ _ => rfl) fun _ => ?_
  exact .ite (fun _ => .throw fun _ h => h.1) fun _ => .pure fun _ h => h

theorem connect_owns (M : Machine) (path machine : WString) :
    Triple (fun s => Owns h₀ e s ∧ s.1.service = false) (WmiStateT.connect M path machine)
      (fun _ s => Owns h₀ e s ∧ s.1.service = true) (Owns h₀ e) := by
  rw [WmiStateT.connect]
  apply Triple.bind_get
  rintro ⟨o, s⟩ ⟨howns, hsv⟩
  refine .ite (fun _ => .lift nofun nofun) fun hloc => ?_
  have hl : o.locator = true := by simpa using hloc
  have hsv : o.service = false := hsv
  have hs : Held h₀ true false e s := by
    rw [← hl, ← hsv]
    exact howns
  clear howns hloc
  generalize M.connectServer (WmiStateT.serverPath path machine) = result
  refine .bind (R := fun _ t => Held h₀ true (!failed result) e t.2 ∧ t.1 = o)
    (.outer fun o' => .modify fun t ht => ?_) fun _ => ?_
  · obtain ⟨rfl, rfl⟩ := Prod.mk.inj ht
    exact ⟨hs.log (by simp [ComHeld.step]), rfl⟩
  · cases failed result with
    | true =>
      rw [if_pos rfl]
      refine .throw fun t ht => ?_
      rw [Owns, ht.2, hl, hsv]
      exact ht.1
    | false =>
      rw [if_neg Bool.false_ne_true]
      refine .bind (.modifyLocal fun o' t ht => ?_) fun _ => setProxyBlanket_owns M
      obtain ⟨ht, rfl⟩ := ht
      refine ⟨?_, rfl⟩
      rw [Owns, hl]
      exact ht

theorem query_owns (hM : Gives M) (queryStr : WString) :
    Triple (fun s => Owns h₀ false s ∧ s.1.service = true) (WmiStateT.query M queryStr)
      (fun enumerator => Owns h₀ enumerator.isSome) (Owns h₀ false) := by
  rw [WmiStateT.query]
  apply Triple.bind_get
  rintro s ⟨hs, hsv⟩
  refine .ite (fun _ => .lift nofun nofun) fun _ => ?_
  have hq := hM queryStr
  rcases hexec : M.execQuery queryStr with ⟨hres, result⟩
  rw [hexec] at hq
  refine .bind (R := fun _ => Owns h₀ result.isSome) ?_ fun _ => ?_
  · refine (log_owns (e := false) (f := result.isSome) fun b l => ?_).imp (fun t ht => ?_)
      (fun _ _ h => h.1) fun _ h => h
    · simp [ComHeld.step, hq]
    · rw [ht]
      exact ⟨hs, hsv⟩
  · refine .ite (fun hf => .throw fun t ht => ?_) fun _ => .pure fun _ h => h
    rw [hq, hf] at ht
    exact ht

theorem listProcesses_owns (P : Platform) (hM : Gives M) (machine : WString) :
    Triple (fun s => Owns h₀ false s ∧ s.1.service = false) (listProcesses P M machine)
      (fun _ => Owns h₀ false) (Owns h₀ false) := by
  rw [listProcesses]
  refine .bind (connect_owns M _ machine) fun _ => ?_
  refine .bind (query_owns hM _) fun enumerator => ?_
  refine .withLocal (J := fun s => Owns h₀ s.1.isSome s.2) (fun _ h => h) ?_
  exact .lift (fun _ _ _ h => Held.releaseIf_enumerator h) fun _ _ _ h => Held.releaseIf_enumerator h

/-! ## A whole use -/

/-- A connection that keeps to what it owns. -/
theorem life_held {α : Type} {body : ExecM (WmiStateT × Com) Exn α}
    (h : Triple (fun s => Owns h₀ false s ∧ s.1.service = false) body (fun _ => Owns h₀ false)
      (Owns h₀ false)) :
    Triple (Held h₀ false false false)
      (WmiStateT.ctor M >>= fun wmiState => ExecM.withLocal wmiState body WmiStateT.dtor)
      (fun _ => Held h₀ false false false) (Held h₀ false false false) := by
  refine .bind (ctor_owns M) fun o => ?_
  refine .withLocal (J := fun s => Owns h₀ false s ∧ s.1.service = false) (fun _ h => h) ?_
  exact h.imp (fun _ h => h) (fun _ _ h => Owns.dtor h) fun _ h => Owns.dtor h

/-- The calls of a listing are in order, and leave nothing held. -/
theorem getWmiWin32Process_held (P : Platform) (hM : Gives M) (machine : WString) :
    Triple (Held h₀ false false false) (getWmiWin32Process P M machine)
      (fun _ => Held h₀ false false false) (Held h₀ false false false) :=
  life_held (listProcesses_owns P hM machine)

end

/-! ## The calls made -/

/-- The calls of COM made for a machine; `asked` are the requests to terminate
that are made there. -/
inductive MayCall (machine : WString) (asked : WString → Prop) : ComCall → Prop
  | coInitializeEx (hres : HRESULT) : MayCall machine asked (.coInitializeEx hres)
  | coUninit : MayCall machine asked .coUninit
  | coInitializeSecurity (hres : HRESULT) : MayCall machine asked (.coInitializeSecurity hres)
  | coCreateInstance (hres : HRESULT) : MayCall machine asked (.coCreateInstance hres)
  | connectServer (hres : HRESULT) :
    MayCall machine asked (.connectServer (WmiStateT.serverPath (wide "ROOT\\CIMV2") machine) hres)
  | coSetProxyBlanket (hres : HRESULT) : MayCall machine asked (.coSetProxyBlanket hres)
  | execQuery (hres : HRESULT) :
    MayCall machine asked (.execQuery (wide "SELECT * FROM Win32_Process") hres)
  | getObject (hres : HRESULT) : MayCall machine asked (.getObject (wide "Win32_Process") hres)
  | getMethod (hres : HRESULT) : MayCall machine asked (.getMethod (wide "Terminate") hres)
  | spawnInstance (hres : HRESULT) : MayCall machine asked (.spawnInstance hres)
  | put (hres : HRESULT) : MayCall machine asked (.put (wide "Reason") 1 hres)
  | execMethod (objectPath : WString) (h : asked objectPath) (hres : HRESULT) :
    MayCall machine asked (.execMethod objectPath (wide "Terminate") hres)
  | release (i : Interface) : MayCall machine asked (.release i)

/-- What no call made for the machine breaks, nor an initialisation of `sec_res`. -/
structure Stable (machine : WString) (asked : WString → Prop) (J : Com → Prop) : Prop where
  log : ∀ s c, MayCall machine asked c → J s → J (s.log c)
  secRes : ∀ s hres, J s → J { s with secRes := some hres }

section

variable {machine : WString} {asked : WString → Prop} {J : Com → Prop}

theorem MayCall.mono {asked' : WString → Prop} {c : ComCall} (h : MayCall machine asked c)
    (ha : ∀ path, asked path → asked' path) : MayCall machine asked' c := by
  cases h with
  | execMethod path hp hres => exact .execMethod path (ha path hp) hres
  | _ => constructor

/-- A call on the state around an object. -/
theorem Stable.logs (hJ : Stable machine asked J) {c : ComCall} (hc : MayCall machine asked c) :
    Keeps (fun s => J s.2) (ExecM.outer (ExecM.modify (·.log c)) : ExecM (WmiStateT × Com) Exn Unit) :=
  .outer fun _ => .modify fun s hs => hJ.log s c hc hs

theorem Stable.dtor (hJ : Stable machine asked J) (o : WmiStateT) {s : Com} (h : J s) :
    J (o.dtor s) := by
  have released {b : Bool} {i : Interface} {s : Com} (h : J s) : J (releaseIf b i s) := by
    cases b with
    | true => exact hJ.log s _ (.release i) h
    | false => exact h
  have hinit : J (o.init.dtor s) := by
    unfold WmiStateCo.dtor
    split
    · exact hJ.log s _ .coUninit h
    · exact h
  exact released (released hinit)

theorem ctor_keeps (hJ : Stable machine asked J) (M : Machine) : Keeps J (WmiStateT.ctor M) := by
  have secured : Keeps J (WmiStateT.secRes M) := by
    rw [WmiStateT.secRes]
    refine .bind_get fun s hs => Triple.imp (I := J) (.ite (fun _ => ?_) fun _ => .pure fun _ h => h)
      (fun t ht => ht ▸ hs) (fun _ _ h => h) fun _ h => h
    refine .bind_keeps (.modify fun t ht => hJ.log t _ (.coInitializeSecurity _) ht) fun _ => ?_
    exact .ite (fun _ => .throw fun _ h => h) fun _ => .modify fun t ht => hJ.secRes t _ ht
  rw [WmiStateT.ctor, WmiStateCo.ctor]
  refine .bind ?_ fun init => .construct (J := fun s => J s.2) (fun _ h => h) ?_
  · refine .bind_keeps (.modify fun s hs => hJ.log s _ (.coInitializeEx _) hs) fun _ => ?_
    exact .ite (fun _ => .throw fun _ h => h) fun _ => .pure fun _ h => h
  · refine Triple.imp (?_ : Keeps (fun s => J s.2) (WmiStateT.ctorBody M)) (fun _ h => h)
      (fun _ _ h => h) fun s h => hJ.dtor s.1 h
    rw [WmiStateT.ctorBody]
    refine .bind_keeps (.outer fun _ => secured) fun _ => ?_
    refine .bind (hJ.logs (.coCreateInstance _)) fun _ => .ite (fun _ => ?_) fun _ => ?_
    · exact .bind (hJ.logs .coUninit) fun _ => .throw fun _ h => h
    · exact .modifyLocal fun _ _ h => h

theorem connect_keeps (hJ : Stable machine asked J) (M : Machine) :
    Keeps (fun s => J s.2) (WmiStateT.connect M (wide "ROOT\\CIMV2") machine) := by
  rw [WmiStateT.connect]
  refine .bind_get fun s hs => .ite (fun _ => .lift nofun nofun) fun _ => ?_
  refine .bind ((hJ.logs (.connectServer _)).imp (fun t ht => ht ▸ hs) (fun _ _ h => h) fun _ h => h)
    fun _ => .ite (fun _ => .throw fun _ h => h) fun _ => ?_
  refine .bind (R := fun _ s => J s.2) (.modifyLocal fun _ _ h => h) fun _ => ?_
  rw [WmiStateT.setProxyBlanket]
  refine .bind (hJ.logs (.coSetProxyBlanket _)) fun _ => ?_
  exact .ite (fun _ => .throw fun _ h => h) fun _ => .pure fun _ h => h

theorem query_keeps (hJ : Stable machine asked J) (M : Machine) :
    Keeps (fun s => J s.2) (WmiStateT.query M (wide "SELECT * FROM Win32_Process")) := by
  rw [WmiStateT.query]
  refine .bind_get fun s hs => .ite (fun _ => .lift nofun nofun) fun _ => ?_
  rcases M.execQuery (wide "SELECT * FROM Win32_Process") with ⟨hres, result⟩
  refine .bind ((hJ.logs (.execQuery hres)).imp (fun t ht => ht ▸ hs) (fun _ _ h => h) fun _ h => h)
    fun _ => ?_
  exact .ite (fun _ => .throw fun _ h => h) fun _ => .pure fun _ h => h

theorem listProcesses_keeps (P : Platform) (hJ : Stable machine asked J) (M : Machine) :
    Keeps (fun s => J s.2) (listProcesses P M machine) := by
  rw [listProcesses]
  refine .bind (connect_keeps hJ M) fun _ => .bind (query_keeps hJ M) fun enumerator => ?_
  have released {s : Option Enumeration × WmiStateT × Com} (h : J s.2.2) :
      J (releaseEnumerator s.1 s.2).2 := by
    rw [releaseEnumerator]
    cases s.1.isSome with
    | true => exact hJ.log s.2.2 _ (.release .enumerator) h
    | false => exact h
  refine .withLocal (J := fun s => J s.2.2) (fun _ h => h) ?_
  exact .lift (fun _ _ _ h => released h) fun _ _ _ h => released h

/-- The scope of an object, and its destructor. -/
theorem withLocal_keeps {α : Type} (hJ : Stable machine asked J) {o : WmiStateT}
    {body : ExecM (WmiStateT × Com) Exn α} (h : Keeps (fun s => J s.2) body) :
    Keeps J (ExecM.withLocal o body WmiStateT.dtor) :=
  .withLocal (J := fun s => J s.2) (fun _ h => h)
    (h.imp (fun _ h => h) (fun _ s h => hJ.dtor s.1 h) fun s h => hJ.dtor s.1 h)

theorem getWmiWin32Process_keeps (P : Platform) (hJ : Stable machine asked J) (M : Machine) :
    Keeps J (getWmiWin32Process P M machine) :=
  .bind (ctor_keeps hJ M) fun _ => withLocal_keeps hJ (listProcesses_keeps P hJ M)

theorem terminateProcessByPid_keeps {pid : BitVec 32} (hJ : Stable machine asked J)
    (hpid : asked (handlePath pid)) (M : Machine) (R : ClassMethods) :
    Keeps J (terminateProcessByPid M R machine pid) := by
  have called {held : Bool} {c : ComCall} (hc : MayCall machine asked c) :
      Keeps (fun s => J s.2) (callThrough held c) := by
    rw [callThrough]
    exact .ite (fun _ => hJ.logs hc) fun _ => .lift nofun nofun
  refine .bind (ctor_keeps hJ M) fun o => withLocal_keeps hJ (.bind (connect_keeps hJ M) fun _ => ?_)
  rw [execTerminate]
  refine .bind_get fun s hs => Triple.imp (I := fun s => J s.2) ?_ (fun t ht => ht ▸ hs) (fun _ _ h => h)
    fun _ h => h
  refine .bind (called (.getObject _)) fun _ => .ite (fun _ => .pure fun _ h => h) fun _ => ?_
  refine .bind (called (.getMethod _)) fun _ => .ite (fun _ => .pure fun _ h => h) fun _ => ?_
  refine .bind (called (.spawnInstance _)) fun _ => .bind (called (.put _)) fun _ => ?_
  exact called (.execMethod _ hpid _)

end

end RTM.Proof.ComProtocol
