/-
# EchoBot.MyI2cMcp9808.Registers — what the driver's calls put on the bus, and what they bring back

The driver puts a register's number and its bytes into one message, the high byte first, and reads
the bytes back into a `uint16_t` whose low byte comes first. What the device makes of a message is
its own affair: the bus is a parameter here, of which nothing is assumed. It keeps a state of its
own, answers as it likes, and may fail at any byte.

Read by itself, the log of the bus is the list of the requests that the callers made
(`calls_are_requests`), and each caller gets the answer to its own. That the two directions agree
on the order of the bytes shows when a read is answered with the bytes of a message that wrote.
-/
import EchoBot.MyI2cMcp9808.Sample

namespace EchoBot.MyI2cMcp9808

variable {β : Type}

/-! ## §1 — the driver, on a bus. -/

/-- The bus and the devices on it. -/
structure Bus (β : Type) where
  /-- What becomes of a message, and the code of `i2c_write_dt`. -/
  write : List UInt8 → β → β × Int
  /-- What becomes of a message behind which two bytes are read. -/
  writeRead : List UInt8 → β → β × I2c

/-- A message, and what came of it. -/
inductive Exchange where
  | write (message : List UInt8) (rc : Int)
  | writeRead (message : List UInt8) (answer : I2c)

/-- The state of the bus, and what went over it, oldest first. -/
structure Wire (β : Type) where
  state : β
  log : List Exchange

section Driver

variable (bus : Bus β)

/-- `i2c_write_dt`. -/
def i2cWriteDt (buf : List UInt8) (w : Wire β) : Wire β × Int :=
  let (state, rc) := bus.write buf w.state
  (⟨state, w.log ++ [.write buf rc]⟩, rc)

/-- `my_i2c_mcp9808_reg_read` into a variable that holds `val`. -/
def regReadDt (reg : UInt8) (val : UInt16) (w : Wire β) : Wire β × UInt16 × Int :=
  let (state, answer) := bus.writeRead [reg] w.state
  (⟨state, w.log ++ [.writeRead [reg] answer]⟩, regRead (fun _ => answer) reg val)

/-- `sys_put_be16`. -/
def sysPutBe16 (val : UInt16) : List UInt8 := [byte1 val, byte0 val]

/-- `my_i2c_mcp9808_reg_write_16bit`. -/
def regWrite16bit (reg : UInt8) (val : UInt16) (w : Wire β) : Wire β × Int :=
  i2cWriteDt bus (reg :: sysPutBe16 val) w

/-- `my_i2c_mcp9808_reg_write_8bit`. -/
def regWrite8bit (reg val : UInt8) (w : Wire β) : Wire β × Int := i2cWriteDt bus [reg, val] w

/-- `MY_I2C_MCP9808_REG_RESOLUTION`. -/
def regResolution : UInt8 := 0x08

/-- `my_i2c_mcp9808_set_temperature_resolution`. -/
def setTemperatureResolution (resolution : UInt8) (w : Wire β) : Wire β × Int :=
  regWrite8bit bus regResolution resolution w

/-- `ENODEV`. -/
def enodev : Int := 19

/-- `my_i2c_mcp9808_init`; `ready` is `device_is_ready`. -/
def initDevice (ready : Bool) (resolution : UInt8) (w : Wire β) : Wire β × Int :=
  if !ready then (w, -enodev)
  else
    let (w, rc) := setTemperatureResolution bus resolution w
    if rc ≠ 0 then (w, rc) else (w, rc)

/-- A call of the driver. -/
inductive Op where
  | regRead (reg : UInt8) (val : UInt16)
  | regWrite16bit (reg : UInt8) (val : UInt16)
  | regWrite8bit (reg val : UInt8)
  | init (ready : Bool) (resolution : UInt8)

/-- What the caller gets: the code, and what a read leaves in its variable. -/
structure Result where
  rc : Int
  val : Option UInt16
  deriving DecidableEq, Repr

/-- A call that writes. -/
def written (call : Wire β × Int) : Wire β × Result := (call.1, ⟨call.2, none⟩)

/-- A call of the driver. -/
def step (w : Wire β) : Op → Wire β × Result
  | .regRead reg val =>
    let (w, val, rc) := regReadDt bus reg val w
    (w, ⟨rc, some val⟩)
  | .regWrite16bit reg val => written (regWrite16bit bus reg val w)
  | .regWrite8bit reg val => written (regWrite8bit bus reg val w)
  | .init ready resolution => written (initDevice bus ready resolution w)

/-- Some calls, one after the other. -/
def runOps : List Op → Wire β → Wire β × List Result
  | [], w => (w, [])
  | op :: ops, w =>
    let (w, result) := step bus w op
    let (w, results) := runOps ops w
    (w, result :: results)

end Driver

/-! ## §2 — what is asked of the device. -/

/-- What a register is asked for. -/
inductive Request where
  | read (reg : UInt8)
  | writeWord (reg : UInt8) (val : UInt16)
  | writeByte (reg val : UInt8)
  deriving DecidableEq, Repr

/-- The number whose high byte came first. -/
def bigEndian (first second : UInt8) : UInt16 := UInt16.ofNat (256 * first.toNat + second.toNat)

/-- A message, read by one who knows nothing of the call. -/
def Exchange.request? : Exchange → Option Request
  | .write [reg, val] _ => some (.writeByte reg val)
  | .write [reg, first, second] _ => some (.writeWord reg (bigEndian first second))
  | .writeRead [reg] _ => some (.read reg)
  | _ => none

/-- What a call asks for: nothing when the bus is not ready. -/
def Op.request? : Op → Option Request
  | .regRead reg _ => some (.read reg)
  | .regWrite16bit reg val => some (.writeWord reg val)
  | .regWrite8bit reg val => some (.writeByte reg val)
  | .init ready resolution => if ready then some (.writeByte regResolution resolution) else none

/-- What a read leaves in a variable that held `val`: the number, or when it failed, the bytes that
came over those that were there. -/
def received (val : UInt16) : I2c → Result
  | .ok first second => ⟨0, some (bigEndian first second)⟩
  | .error rc _ first second =>
    ⟨rc, some (load16 (first.getD (byte0 val)) (second.getD (byte1 val)))⟩

/-- **`op.Gets e result`** — the result is what came of the exchange. -/
def Op.Gets (op : Op) : Option Exchange → Result → Prop
  | none, result => result = ⟨-enodev, none⟩
  | some (.write _ rc), result => result = ⟨rc, none⟩
  | some (.writeRead _ answer), result => ∃ reg val, op = .regRead reg val ∧
      result = received val answer

/-- **`Served ops log results`** — the log is an exchange for each call that asks for something, in
their order, and each caller got what came of its own. -/
inductive Served : List Op → List Exchange → List Result → Prop
  | nil : Served [] [] []
  | cons {op ops log result results} (e : Option Exchange) :
    e.map Exchange.request? = op.request?.map some → op.Gets e result →
      Served ops log results → Served (op :: ops) (e.toList ++ log) (result :: results)

/-! ## §3 — one call. -/

theorem bigEndian_eq (first second : UInt8) : bigEndian first second = load16 second first := by
  rw [bigEndian, load16, Nat.add_comm]

/-- The bytes of a message are the number. -/
theorem bigEndian_bytes (val : UInt16) : bigEndian (byte1 val) (byte0 val) = val := by
  rw [bigEndian_eq, load16_bytes]

/-- **What a read is worth**, whatever the bus answered. -/
theorem regRead_eq (answer : I2c) (reg : UInt8) (val : UInt16) :
    (⟨(regRead (fun _ => answer) reg val).2, some (regRead (fun _ => answer) reg val).1⟩ : Result) =
      received val answer := by
  cases answer with
  | ok first second =>
    have hval : sysBe16ToCpu (load16 first second) = bigEndian first second := by
      rw [sysBe16ToCpu, byte0_load16, byte1_load16, bigEndian_eq]
    simp only [regRead, i2cWriteReadDt, if_true, hval, received]
  | error rc hrc first second =>
    show (⟨rc, some (if rc = 0 then _ else _)⟩ : Result) = _
    rw [if_neg hrc]
    rfl

variable (bus : Bus β)

/-- The resolution is set when the bus is ready; its code is the code. -/
theorem initDevice_eq (ready : Bool) (resolution : UInt8) (w : Wire β) :
    initDevice bus ready resolution w =
      if ready then regWrite8bit bus regResolution resolution w else (w, -enodev) := by
  cases ready with
  | false => rfl
  | true => exact ite_self _

/-- **The step lemma**: a call makes the exchange it asks for, and gets what came of it. -/
theorem step_served (w : Wire β) (op : Op) :
    ∃ e : Option Exchange, (step bus w op).1.log = w.log ++ e.toList ∧
      e.map Exchange.request? = op.request?.map some ∧ op.Gets e (step bus w op).2 := by
  cases op with
  | regRead reg val =>
    exact ⟨some (.writeRead [reg] (bus.writeRead [reg] w.state).2), rfl, rfl, reg, val, rfl,
      regRead_eq _ reg val⟩
  | regWrite16bit reg val =>
    refine ⟨some (.write (reg :: sysPutBe16 val) (bus.write (reg :: sysPutBe16 val) w.state).2),
      rfl, ?_, rfl⟩
    show some (some (Request.writeWord reg (bigEndian (byte1 val) (byte0 val)))) = _
    rw [bigEndian_bytes]
    rfl
  | regWrite8bit reg val =>
    exact ⟨some (.write [reg, val] (bus.write [reg, val] w.state).2), rfl, rfl, rfl⟩
  | init ready resolution =>
    rw [step, initDevice_eq]
    cases ready with
    | false => exact ⟨none, (List.append_nil _).symm, rfl, rfl⟩
    | true =>
      exact ⟨some (.write [regResolution, resolution]
        (bus.write [regResolution, resolution] w.state).2), rfl, rfl, rfl⟩

/-! ## §4 — every run. -/

/-- **The run lemma.** -/
theorem runOps_served (ops : List Op) (w : Wire β) :
    ∃ log, (runOps bus ops w).1.log = w.log ++ log ∧ Served ops log (runOps bus ops w).2 := by
  induction ops generalizing w with
  | nil => exact ⟨[], (List.append_nil _).symm, .nil⟩
  | cons op ops ih =>
    obtain ⟨e, hlog, hasked, hgets⟩ := step_served bus w op
    obtain ⟨log, hrest, hserved⟩ := ih (step bus w op).1
    refine ⟨e.toList ++ log, ?_, .cons e hasked hgets hserved⟩
    show (runOps bus ops (step bus w op).1).1.log = _
    rw [hrest, hlog, List.append_assoc]

theorem runOps_append (ops more : List Op) (w : Wire β) :
    (runOps bus (ops ++ more) w).1 = (runOps bus more (runOps bus ops w).1).1 := by
  induction ops generalizing w with
  | nil => rfl
  | cons op ops ih => exact ih _

/-- Served calls asked for what the log says. -/
theorem Served.map_request? {ops : List Op} {log : List Exchange} {results : List Result}
    (h : Served ops log results) :
    log.map Exchange.request? = (ops.filterMap Op.request?).map some := by
  induction h with
  | nil => rfl
  | @cons op ops log result results e hasked _ _ ih =>
    have hone : e.toList.map Exchange.request? = op.request?.toList.map some := by
      rw [← Option.toList_map, hasked, Option.toList_map]
    rw [List.map_append, ih, hone, ← List.map_append]
    cases hop : op.request? with
    | none => rw [List.filterMap_cons_none hop, Option.toList_none, List.nil_append]
    | some request =>
      rw [List.filterMap_cons_some hop, Option.toList_some, List.singleton_append]

/-- **The calls are requests.** On every bus, whatever it answers and wherever it fails, and for
every sequence of calls: the messages that went over it read, in order, as exactly the requests of
the calls, none for an init that finds the bus not ready; and each caller gets the code and the
value of its own exchange. And when a read is answered with the two bytes of an earlier message that
wrote a temperature, the caller gets the register value that was written; it decodes to the
temperature that was meant exactly if a register can hold it. -/
theorem calls_are_requests (state : β) :
    (∀ ops : List Op, let run := runOps bus ops ⟨state, []⟩
      Served ops run.1.log run.2 ∧
        run.1.log.map Exchange.request? = (ops.filterMap Op.request?).map some) ∧
    ∀ (pre mid : List Op) (reg : UInt8) (t : Int32) (val : UInt16) (first second : UInt8)
      (rc : Int), let before := (runOps bus pre ⟨state, []⟩).1
      let after := (runOps bus
        (pre ++ .regWrite16bit reg (tempRegFromSigned t) :: mid) ⟨state, []⟩).1
      after.log[before.log.length]? = some (.write [reg, first, second] rc) →
      (bus.writeRead [reg] after.state).2 = .ok first second →
      ∃ regVal, (step bus after (.regRead reg val)).2 = ⟨0, some regVal⟩ ∧
        (tempSignedFromReg regVal = t ↔ Representable t) := by
  refine ⟨fun ops => ?_, ?_⟩
  · obtain ⟨log, hlog, hserved⟩ := runOps_served bus ops ⟨state, []⟩
    rw [List.nil_append] at hlog
    dsimp only
    rw [hlog]
    exact ⟨hserved, hserved.map_request?⟩
  · intro pre mid reg t val first second rc before after hsent hanswer
    -- the message behind `pre` is the one that `regWrite16bit` sent
    obtain ⟨more, hmore, -⟩ := runOps_served bus mid
      (step bus before (.regWrite16bit reg (tempRegFromSigned t))).1
    have hlog : after.log = before.log ++
        .write (reg :: sysPutBe16 (tempRegFromSigned t))
          (bus.write (reg :: sysPutBe16 (tempRegFromSigned t)) before.state).2 :: more := by
      have hafter : after = (runOps bus mid
          (step bus before (.regWrite16bit reg (tempRegFromSigned t))).1).1 :=
        runOps_append bus _ _ _
      rw [hafter, hmore, List.append_cons]
      rfl
    rw [hlog, List.getElem?_append_right (Nat.le_refl _), Nat.sub_self, List.getElem?_cons_zero]
      at hsent
    have hbytes := Option.some.inj hsent
    simp only [sysPutBe16, Exchange.write.injEq, List.cons.injEq, true_and, and_true] at hbytes
    obtain ⟨⟨rfl, rfl⟩, -⟩ := hbytes
    refine ⟨tempRegFromSigned t, ?_, decode_encode_iff t⟩
    refine (regRead_eq _ reg val).trans ?_
    rw [hanswer, received, bigEndian_bytes]

/-- A bus with a device that keeps the last two bytes written to it. -/
def memory : Bus (UInt8 × UInt8) where
  write
    | [_, first, second], _ => ((first, second), 0)
    | _, s => (s, 0)
  writeRead _ s := (s, .ok s.1 s.2)

/-- 30 °C as an upper limit, the resolution set behind it. -/
theorem calls_are_requests_limit :
    ∃ regVal, (step memory (runOps memory
        ([] ++ .regWrite16bit 0x02 (tempRegFromSigned 480) :: [.init true 0x03])
        ⟨(0, 0), []⟩).1 (.regRead 0x02 0)).2 = ⟨0, some regVal⟩ ∧
      (tempSignedFromReg regVal = 480 ↔ Representable 480) :=
  (calls_are_requests memory (0, 0)).2 [] [.init true 0x03] 0x02 480 0 0x01 0xE0 0 rfl rfl

end EchoBot.MyI2cMcp9808
