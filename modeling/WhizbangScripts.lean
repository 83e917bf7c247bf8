import WhizbangScripts.Py.Str
import WhizbangScripts.Py.Regex
import WhizbangScripts.Py.Dict
import WhizbangScripts.Py.Json
import WhizbangScripts.Coverage.Cobertura
import WhizbangScripts.Coverage.Aggregate
import WhizbangScripts.Coverage.BestOfRuns
import WhizbangScripts.Coverage.Legacy
import WhizbangScripts.Coverage.Report
import WhizbangScripts.Coverage.ClassListing
import WhizbangScripts.Coverage.RunOrder
import WhizbangScripts.Coverage.LegacyReport
import WhizbangScripts.Coverage.CoreDetails
import WhizbangScripts.Hops.MessageHops
import WhizbangScripts.Hops.Scan
import WhizbangScripts.Hops.Assertions
import WhizbangScripts.Hops.Benchmarks
import WhizbangScripts.Hops.FixHops
import WhizbangScripts.ServiceBus.AddRules
