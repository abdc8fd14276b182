import Pbl4.Architecture.Packages
import Pbl4.Common.Hashing
import Pbl4.Common.Ids
import Pbl4.Migration.Activity
import Pbl4.Migration.Checks
import Pbl4.Migration.JobAncestry
import Pbl4.Migration.Lifetime
import Pbl4.Migration.ResumeLineage
import Pbl4.Migration.Rollback
import Pbl4.Migration.RoundTrip
import Pbl4.Migration.Statements
import Pbl4.Migration.StepScoping
import Pbl4.Migration.Teardown
import Pbl4.Scaffold.Policy
import Pbl4.Scaffold.Verification
import Pbl4.Skills.Integrity
import Pbl4.Skills.Refresh
