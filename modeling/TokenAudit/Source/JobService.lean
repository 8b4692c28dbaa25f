import TokenAudit.Source.Decompiler
import TokenAudit.Web.Exchange

/-! The decompiler reached over the web: jobs are posted, and asked for by their names. -/

namespace TokenAudit.Decompiler

/-- A body that is not JSON reads as null. -/
def Response.ofAnswer (a : Web.Answer) : Response :=
  ⟨a.status, (Web.phrase? a.status).getD "", (a.json?.bind Json.readFree?).getD .null⟩

structure JobService (σ : Type) where
  baseUrl : String
  apiKey : String
  network : Web.Network σ

namespace JobService

variable {σ : Type}

def address (d : JobService σ) : String := s!"{Web.base d.baseUrl}/api/v2/decompile"

def jobAddress (d : JobService σ) (job : String) : String := s!"{d.address}/{job}"

def ask (d : JobService σ) (method : Web.Method) (address : String) (body : Option Json) :
    Ask σ (Except AuditError Response) :=
  (Web.send d.network (Web.request? method address [] (some d.apiKey) body)).map fun r =>
    match r with
    | .error fault => .error (.transport address fault.message)
    | .ok answer => .ok (.ofAnswer answer)

def transport (d : JobService σ) : Transport σ where
  submit digits := d.ask .post d.address (some (.obj [("bytecode", .str digits)]))
  jobStatus job := d.ask .get (d.jobAddress job) none

end JobService

end TokenAudit.Decompiler
