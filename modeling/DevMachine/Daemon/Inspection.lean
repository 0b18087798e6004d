import DevMachine.Daemon.Feed

/-!
# Inspections of containers

An inspection says much about a container, of which a machine needs its id and
its labels.  The fields at its top and those of its configuration have to be of
their kinds all the same.
-/

namespace DevMachine.Daemon

open Json (Field Reader Value optionalField textValue integerValue flagValue arrayOf mapOf recordOf)
open Machine (Labels)

/-- Optional fields of one kind. -/
def optionalFields (reader : Reader Value) (names : List String) : List Field :=
  names.map (optionalField · reader)

/-- A part of an inspection that is not looked into. -/
def somePart : Reader Value := recordOf []

def configReader : Reader Value :=
  recordOf <|
    optionalFields textValue
      ["Hostname", "Domainname", "User", "Image", "WorkingDir", "MacAddress", "StopSignal"] ++
    optionalFields flagValue
      ["AttachStdin", "AttachStdout", "AttachStderr", "Tty", "OpenStdin", "StdinOnce",
        "ArgsEscaped", "NetworkDisabled"] ++
    optionalFields (arrayOf textValue) ["Env", "Cmd", "Entrypoint", "OnBuild", "Shell"] ++
    optionalFields (mapOf somePart) ["ExposedPorts", "Volumes"] ++
    optionalFields integerValue ["StopTimeout"] ++
    optionalFields somePart ["Healthcheck"] ++
    [optionalField "Labels" (mapOf textValue)]

/-- Reads an inspection, but only approximately: its state, host configuration, mounts, driver
and networks merely have to be objects.  A field inside one of them that is of the wrong kind
goes unnoticed, where a typed reading of the whole would refuse the inspection. -/
def inspectionReader : Reader Value :=
  recordOf <|
    optionalFields textValue
      ["Id", "Created", "Path", "Image", "ResolvConfPath", "HostnamePath", "HostsPath", "LogPath",
        "Name", "Driver", "Platform", "MountLabel", "ProcessLabel", "AppArmorProfile"] ++
    optionalFields integerValue ["RestartCount", "SizeRw", "SizeRootFs"] ++
    optionalFields (arrayOf textValue) ["Args", "ExecIDs"] ++
    optionalFields (arrayOf somePart) ["Mounts"] ++
    optionalFields somePart ["State", "HostConfig", "GraphDriver", "NetworkSettings"] ++
    [optionalField "Config" configReader]

/-- The id that an inspection gives. -/
def inspectedId? (v : Value) : Option String := (v.member? "Id").bind Value.string?

/-- The labels that an inspection gives. -/
def inspectedLabels? (v : Value) : Option Labels :=
  ((v.member? "Config").bind (Value.member? "Labels")).bind labelsOf

end DevMachine.Daemon
